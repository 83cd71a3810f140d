import Switchboard.Proofs.Bookkeeping

namespace Switchboard.Proofs.Marking
open Text Gateway Outline Frame Turns Bookkeeping Steps NoReplay
open Effect (Monitor Prog Machine Conf Driver)

/-- What a request was last told about its prompt: the prompt, if it is worth caching. A mark is
sent for that prompt alone. -/
def marking : Monitor Op Ans (Option String) where
  may _ _ _ := True
  ok told
    | .send u => u.sent.cacheSystem = true → told = some (systemOf u.sent)
    | _ => True
  next told
    | .ask (.worthCaching s), worth => if (worth : Bool) = true then some s else none
    | _, _ => told

/-- Marks are sent as they may be, whatever the request was told before. -/
def Sober {α : Type} (p : M α) : Prop := ∀ told, marking.wp (fun _ _ => True) p told

section
variable {α β : Type} {k : Inference} {route : Route} {st : Loop}

/-- What says nothing of marks: no offer, and requests without one. -/
def Plain (o : Op) : Prop := offers o = false ∧ ∀ u, o = .send u → u.sent.cacheSystem = false

theorem keeps_of_plain {Q : β → Prop} {p : M β} (h : p.Does Plain Q) (told : Option String) :
    marking.wp (fun b told' => Q b ∧ told' = told) p told := by
  have hplain : ∀ o, Plain o → marking.Ignored o := by
    intro o ho g
    cases o with
    | send u => exact ⟨fun hmark => absurd hmark (by simp [ho.2 u rfl]), fun _ => rfl⟩
    | ask o =>
      cases o with
      | worthCaching s => cases ho.1
      | _ => exact ⟨trivial, fun _ => rfl⟩
    | _ => exact ⟨trivial, fun _ => rfl⟩
  exact (h.relax hplain).wp_ignored (fun b hb => ⟨hb, rfl⟩)

theorem plain_of_mild (o : Op) (ho : Mild o) : Plain o := by
  constructor
  · cases o with
    | ask o =>
      cases o with
      | worthCaching s => cases ho
      | _ => rfl
    | _ => rfl
  · rintro u rfl
    cases ho

theorem keeps_of_gentle {Q : β → Prop} {p : M β} (h : Gentle Q p) (told : Option String) :
    marking.wp (fun b told' => Q b ∧ told' = told) p told :=
  keeps_of_plain (h.relax plain_of_mild) told

theorem sober_of_plain {Q : β → Prop} {p : M β} (h : p.Does Plain Q) : Sober p :=
  fun told => Monitor.wp_mono (keeps_of_plain h told) (fun _ _ _ => trivial)

theorem sober_of_gentle {Q : β → Prop} {p : M β} (h : Gentle Q p) : Sober p :=
  sober_of_plain (h.relax plain_of_mild)

theorem sober_ret (b : β) : Sober (pure b) := fun _ => trivial

theorem sober_bind {p : M α} {f : α → M β} (hp : Sober p) (hf : ∀ a, Sober (f a)) :
    Sober (p >>= f) :=
  fun told => Monitor.wp_seq (hp told) (fun a told' _ => hf a told')

theorem sober_gentle {Q : α → Prop} {p : M α} {f : α → M β} (hp : Gentle Q p)
    (hf : ∀ a, Q a → Sober (f a)) : Sober (p >>= f) :=
  fun told => Monitor.wp_seq (keeps_of_gentle hp told) (fun a told' h => hf a h.1 told')

theorem sober_call {o : Op} {f : Ans o → M β} (ho : ∀ u, o ≠ .send u) (hf : ∀ x, Sober (f x)) :
    Sober (Prog.call o >>= f) := by
  intro told
  rw [Prog.call_bind]
  refine ⟨?_, fun x _ => hf x _⟩
  cases o with
  | send u => exact absurd rfl (ho u)
  | _ => trivial

/-- The chat as it is sent, which is marked only if the request was just told so. -/
theorem marked_prepare (hk : k.chat.cacheSystem = false) (told : Option String) :
    marking.wp (fun sent told' => sent.cacheSystem = true → told' = some (systemOf sent))
      (prepare k route) told := by
  unfold prepare
  refine Monitor.wp_seq (keeps_of_gentle gentle_dropTemperature told) ?_
  rintro sent told' ⟨⟨t, rfl⟩, -⟩
  unfold markCached
  split
  · rw [Monitor.wp_bind_iff]
    refine ⟨trivial, fun worth _ => ?_⟩
    cases worth with
    | true => exact ⟨trivial, fun _ _ => ⟨trivial, fun _ _ => fun _ => rfl⟩⟩
    | false => exact fun h => absurd h (by simp [hk])
  · exact fun h => absurd h (by simp [hk])

theorem sober_conclude {b : Bool} {o : Outcome} : Sober (conclude k route (goBack b) st o) :=
  sober_of_gentle (led_conclude (u := ⟨route, k.chat, "", [], []⟩) rfl rfl rfl rfl)

theorem sober_adapterFailed : Sober (adapterFailed route st : M (FlowOf α)) := by
  have h : Gentle (Goes True st.event.attempts []) (adapterFailed route st : M (FlowOf α)) :=
    goes_adapterFailed rfl
  exact sober_of_gentle h

/-- A request and the one after it carry the same mark. -/
theorem sober_exchange {pc : ProviderConfig} {b : Bool} {sent : Chat} {told : Option String}
    (h : sent.cacheSystem = true → told = some (systemOf sent)) :
    marking.wp (fun _ _ => True) (exchange k route pc (goBack b) st sent) told := by
  have hsend : ∀ {sent' : Chat} {u : Upstream} {f : Outcome → M (FlowOf Loop)}, u.sent = sent' →
      (sent'.cacheSystem = true → told = some (systemOf sent')) →
      (∀ o, marking.wp (fun _ _ => True) (f o) told) →
      marking.wp (fun _ _ => True) (send (withRequestID k.id u) >>= f) told := by
    rintro sent' u f rfl hs hf
    exact ⟨hs, fun o _ => hf o⟩
  unfold exchange
  refine Monitor.wp_seq (keeps_of_gentle gentle_upstream told) ?_
  rintro o _ ⟨hu, rfl⟩
  cases o with
  | none => exact sober_adapterFailed _
  | some u =>
    apply hsend (hu u rfl).2 h
    intro res
    split
    · rw [Monitor.wp_bind_iff]
      refine ⟨trivial, fun _ _ => ?_⟩
      rw [Monitor.wp_ret, Monitor.wp_bind_iff]
      refine ⟨trivial, fun _ _ => ?_⟩
      rw [Monitor.wp_ret]
      refine Monitor.wp_seq (keeps_of_gentle gentle_upstream _) ?_
      rintro o _ ⟨hv, rfl⟩
      cases o with
      | none => exact sober_adapterFailed _
      | some v => exact hsend (hv v rfl).2 h (fun res => sober_conclude _)
    · exact sober_conclude _

theorem sober_pace : Sober (pace route st : M (Option (FlowOf α))) := by
  unfold pace
  split
  · exact sober_ret _
  apply sober_call (by simp)
  intro granted
  split
  · refine sober_call (by simp) (fun _ => sober_call (by simp) (fun t => ?_))
    apply sober_call (by simp)
    intro passed
    split
    · exact sober_ret _
    · apply sober_call (by simp)
      intro _
      exact sober_bind (sober_of_gentle (gentle_fail (Q := fun _ => True) trivial)) (fun _ => sober_ret _)
  · exact sober_call (by simp) (fun _ => sober_ret _)

theorem sober_attempt (hk : k.chat.cacheSystem = false) {pc : ProviderConfig} {b : Bool} :
    Sober (attempt k route pc (goBack b) st) := by
  unfold attempt
  split
  · exact sober_ret _
  split
  · exact sober_ret _
  apply sober_call (by simp)
  intro allowed
  split
  · apply sober_bind sober_pace
    intro flow
    cases flow with
    | some flow => exact sober_ret _
    | none =>
      intro told
      exact Monitor.wp_seq (marked_prepare hk told) (fun sent told' h => sober_exchange h)
  · exact sober_ret _

theorem sober_turn (hk : k.chat.cacheSystem = false) (skip b : Bool) :
    Sober (turn k route skip (fun _ => goBack b) st) := by
  unfold turn
  split
  · exact sober_ret _
  · split
    · exact sober_call (by simp) (fun _ => sober_ret _)
    · exact sober_attempt hk

theorem sober_visit (hk : k.chat.cacheSystem = false) (skip : Bool) :
    Sober (visit k route skip st) := by
  have hfollow : ∀ (f : Loop → M (FlowOf Empty)) (flow : FlowOf Loop), (∀ st, Sober (f st)) →
      Sober (follow f flow) := by
    intro f flow hf
    cases flow with
    | again st => exact hf st
    | _ => exact sober_ret _
  rw [visit_eq_turns]
  apply sober_bind (sober_turn hk skip true)
  intro flow
  apply hfollow
  intro st
  rw [← turn_never (fun st : Loop => pure (.next st)) skip]
  exact sober_bind (sober_turn hk skip false) (fun flow => hfollow _ flow (fun _ => sober_ret _))

theorem sober_exhausted : Sober (exhausted k st) := by
  unfold exhausted
  apply sober_call (by simp)
  intro _
  split
  · apply sober_call (by simp)
    intro _
    exact sober_of_gentle (gentle_fail (Q := fun _ => True) trivial)
  · exact sober_of_gentle (gentle_fail (Q := fun _ => True) trivial)

theorem sober_routeLoop (hk : k.chat.cacheSystem = false) (routes : List (Route × Bool)) (st : Loop) :
    Sober (routeLoop k routes st) := by
  induction routes generalizing st with
  | nil => exact sober_exhausted
  | cons r routes ih =>
    apply sober_bind (sober_visit hk r.2)
    intro flow
    cases flow with
    | next st => exact ih st
    | stop st => exact sober_exhausted
    | done e => exact sober_ret e
    | again a => exact nomatch a

theorem sober_dispatch (hk : k.chat.cacheSystem = false) (event : Event) : Sober (dispatch k event) := by
  apply sober_call (by simp)
  intro p
  cases p with
  | none => exact sober_of_gentle (gentle_fail (Q := fun _ => True) trivial)
  | some p => exact sober_gentle (gentle_prepass p.routes) (fun _ _ => sober_routeLoop hk _ _)

theorem sober_claim (hk : k.chat.cacheSystem = false) (event : Event) : Sober (claim k event) := by
  have hfail : ∀ (status : Int) (msg : String), Sober (fail event false status msg) :=
    fun _ _ => sober_of_gentle (gentle_fail (Q := fun _ => True) trivial)
  have hdispatch : Sober (do
      let e ← dispatch k event
      if !e.settled then releaseKey k.key
      pure e : M Ended) := by
    apply sober_bind (sober_dispatch hk event)
    intro e
    split
    · exact sober_call (by simp) (fun _ => sober_ret e)
    · exact sober_ret e
  unfold claim
  split
  · exact sober_dispatch hk event
  · apply sober_call (by simp)
    intro r
    split
    · exact hfail _ _
    · exact hfail _ _
    · exact sober_of_gentle gentle_replay
    · exact hdispatch

end

/-- No request brings a mark of its own. -/
theorem unmarked_of_parseChat {lib : Lib} {b : Bytes} {c : Chat} (h : parseChat lib b = .ok c) :
    c.cacheSystem = false := by
  have hset : ∀ f ∈ chatFields lib, ∀ (a : Chat) j a', a.cacheSystem = false →
      f.decode a j = some a' → a'.cacheSystem = false := by
    intro f hf a j a' ha hd
    simp only [chatFields, List.mem_cons, List.not_mem_nil, or_false] at hf
    rcases hf with rfl | rfl | rfl | rfl | rfl
    all_goals
      obtain ⟨v, -, rfl⟩ := Option.map_eq_some_iff.mp hd
      exact ha
  unfold parseChat at h
  split at h
  · cases h
  · rename_i c' hc
    have hunmarked : c'.cacheSystem = false := Usage.unmarshal_invariant hset rfl hc
    have hdefault : ∀ c'', c'' = (if c'.maxTokens = 0 then { c' with maxTokens := 1024 } else c') →
        c''.cacheSystem = false := by
      rintro c'' rfl
      split <;> exact hunmarked
    dsimp only at h
    generalize hc'' : (if c'.maxTokens = 0 then { c' with maxTokens := 1024 } else c') = c'' at h
    repeat (split at h; · cases h)
    cases h
    exact hdefault _ hc''.symm

section
variable {srv : Server}

theorem sober_clerical {β : Type} {o : Op} {f : Ans o → M β} (ho : Clerical o) (hf : ∀ x, Sober (f x)) :
    Sober (Prog.call o >>= f) := by
  refine sober_call (fun u hu => ?_) hf
  subst hu
  exact ho

theorem sober_serve (r : Request) (id : String) (start : Int) (event : Event) :
    Sober (serve srv r id start event) := by
  refine Serves.serve ⟨sober_clerical, ?_, ?_⟩
    (fun b c hc => sober_claim (unmarked_of_parseChat hc) event)
  · exact fun _ => sober_of_gentle (gentle_fail (Q := fun _ => True) trivial)
  · intro p f hp hf
    apply sober_bind hp
    intro e
    exact sober_of_gentle ((hf e).relax (fun o ho => mild_of_clerical o (clerical_of_leaving o ho)))

theorem plain_of_finishing (o : Op) (ho : Finishing o) : Plain o := by
  cases o with
  | now => exact ⟨rfl, nofun⟩
  | tell t => exact ⟨rfl, nofun⟩
  | _ => cases ho

theorem sober_chat (r : Request) : Sober (chat srv r) := by
  apply chat_of_serve (Ψ := Sober) sober_clerical
  intro id eventID trace span parent start
  exact sober_bind (sober_serve r id start _)
    (fun ended => sober_of_plain (does_epilogue.relax plain_of_finishing))

/-- The check of the providers offers nothing. -/
theorem plain_probeProviders :
    (probeProviders srv).Does Plain (fun _ => True) := by
  have hone : ∀ (route : Route) (pc : ProviderConfig),
      (probeOne srv route pc).Does Plain (fun _ => True) := by
    intro route pc
    have hupstream : Gentle _ (upstream srv pingChat route pc) :=
      gentle_upstream (k := ⟨srv, "", "", 0, [], pingChat⟩)
    refine Monitor.wp_seq (hupstream.relax plain_of_mild) ?_
    intro o _ hu
    cases o with
    | none => trivial
    | some u =>
      have hplain : Plain (.send u) := by
        refine ⟨rfl, fun v hv => ?_⟩
        cases hv
        rw [(hu u rfl).2]
        rfl
      rw [Monitor.wp_bind_iff]
      refine ⟨hplain, fun res _ => ?_⟩
      rw [Monitor.wp_ret]
      cases res with
      | failed => trivial
      | response status header contentType body =>
        dsimp only
        repeat' split
        all_goals trivial
  have hroutes : ∀ (routes : List Route) (seen : List String),
      (probeRoutes srv seen routes).Does Plain (fun _ => True) := by
    intro routes
    induction routes with
    | nil => exact fun _ => trivial
    | cons route routes ih =>
      intro seen
      unfold probeRoutes
      split
      · exact ih _
      split
      · exact ih _
      · refine Monitor.wp_seq (hone route _) (fun reason _ _ => ?_)
        split
        · have hp : ∀ o, Mild o → Plain o := plain_of_mild
          refine ⟨hp _ trivial, fun _ _ => ⟨hp _ trivial, fun _ _ => ⟨hp _ trivial, fun _ _ => ih _⟩⟩⟩
        · exact ih _
  refine ⟨plain_of_mild _ trivial, fun p _ => ?_⟩
  cases p with
  | none => trivial
  | some p => exact hroutes p.routes []

theorem sober_probeProviders : Sober (probeProviders srv) := sober_of_plain plain_probeProviders

theorem sober_run (t : Task) : Sober (t.run srv) := by
  cases t with
  | chat r => exact sober_bind (sober_chat r) (fun _ => sober_ret _)
  | probeProviders => exact sober_bind sober_probeProviders (fun _ => sober_ret _)

end

section
variable {ι : Type} [DecidableEq ι] {ed : Bytes → Bytes → Bytes → Bool} {srv : Server}

abbrev Pool (ι : Type) := Conf Op Ans World ι (Option Event)

/-- Request `j` was offered with the prompt `s` at the time `t`, on the way from `start` to `c`. -/
inductive Offered (ed : Bytes → Bytes → Bytes → Bool) (srv : Server) (start c : Pool ι) (j : ι)
    (s : String) (t : Int) : Prop where
  | intro (d : Pool ι) (k : Bool → Prog Op Ans (Option Event)) (worth : Bool) (w : World)
      (before : (machine ed srv).Reaches Machine.anyMove start d)
      (asks : d.prog j = .op (.ask (.worthCaching s)) k) (time : d.state.now = t)
      (step : (machine ed srv).step d.state (.ask (.worthCaching s)) worth w)
      (after : (machine ed srv).Reaches Machine.anyMove
        (d.advance j ⟨.ask (.worthCaching s), worth⟩ (k worth) w) c) : Offered ed srv start c j s t

theorem Offered.later {start c d : Pool ι} {j : ι} {s : String} {t : Int}
    (h : Offered ed srv start c j s t) (hr : (machine ed srv).Reaches Machine.anyMove c d) :
    Offered ed srv start d j s t := by
  obtain ⟨e, k, worth, w, hbefore, hasks, htime, hstep, hafter⟩ := h
  exact ⟨e, k, worth, w, hbefore, hasks, htime, hstep, hafter.trans hr⟩

/-- How often a request has been offered. -/
def offerings (log : List (Effect.Event Op Ans)) : Nat := log.countP (fun e => offers e.op)

theorem Offered.counted {start c : Pool ι} {j : ι} {s : String} {t : Int}
    (h : Offered ed srv start c j s t) : 1 ≤ offerings (c.log j) := by
  obtain ⟨d, k, worth, w, -, -, -, -, hafter⟩ := h
  obtain ⟨tr, htr⟩ := Machine.log_of_reaches hafter j
  rw [htr, Conf.advance_log_self, offerings, List.countP_append, List.countP_append]
  simp [offers]
  omega

/-- The prompt was offered to be cached within the lifetime of the cache. -/
def Repeated (ed : Bytes → Bytes → Bytes → Bool) (srv : Server) (start e : Pool ι) (s : String) :
    Prop :=
  ∃ j s' t, Offered ed srv start e j s' t ∧
    srv.lib.sha256 (utf8 s'.toList) = srv.lib.sha256 (utf8 s.toList) ∧
    e.state.now - t < promptCacheTTL

/-- The moment at which a request was told that its prompt is worth caching. -/
inductive Told (ed : Bytes → Bytes → Bytes → Bool) (srv : Server) (start c : Pool ι) (i : ι)
    (s : String) : Prop where
  | intro (e : Pool ι) (k : Bool → Prog Op Ans (Option Event)) (w : World)
      (before : (machine ed srv).Reaches Machine.anyMove start e)
      (asks : e.prog i = .op (.ask (.worthCaching s)) k)
      (step : (machine ed srv).step e.state (.ask (.worthCaching s)) true w)
      (after : (machine ed srv).Reaches Machine.anyMove
        (e.advance i ⟨.ask (.worthCaching s), true⟩ (k true) w) c)
      (last : offerings (c.log i) = offerings (e.log i) + 1)
      (repeated : Repeated ed srv start e s) : Told ed srv start c i s

/-- What the table knows stems from offers, and so does what requests were told. -/
structure Traced (ed : Bytes → Bytes → Bytes → Bool) (srv : Server) (start c : Pool ι) : Prop where
  ttl : ∀ p, c.state.prefixes = some p → p.ttl = promptCacheTTL
  seen : ∀ p key last, c.state.prefixes = some p → p.seen.lookup key = some last →
    ∃ j s, srv.lib.sha256 (utf8 s.toList) = key ∧ Offered ed srv start c j s last
  told : ∀ i s, marking.after none (c.log i) = some s → Told ed srv start c i s

omit [DecidableEq ι] in
/-- What the table does with an offer. -/
theorem worthCaching_spec (p : PrefixCache) (sha256 : Bytes → Bytes) (now : Int) (s : String) :
    (p.worthCaching sha256 now s).2.ttl = p.ttl ∧
    (∀ key last, (p.worthCaching sha256 now s).2.seen.lookup key = some last →
      key = sha256 (utf8 s.toList) ∧ last = now ∨ p.seen.lookup key = some last) ∧
    ((p.worthCaching sha256 now s).1 = true →
      ∃ last, p.seen.lookup (sha256 (utf8 s.toList)) = some last ∧ now - last < p.ttl) := by
  unfold PrefixCache.worthCaching
  split
  · exact ⟨rfl, fun key last h => .inr h, fun h => nomatch h⟩
  · have hcleared : ∀ key last,
        (if p.max ≤ p.seen.size then (∅ : Map Bytes Int) else p.seen).lookup key = some last →
        p.seen.lookup key = some last := by
      intro key last h
      split at h
      · cases h
      · exact h
    refine ⟨rfl, ?_, ?_⟩
    · intro key last h
      dsimp only at h
      by_cases hkey : key = sha256 (utf8 s.toList)
      · subst hkey
        rw [AList.lookup_insert] at h
        exact .inl ⟨rfl, (Option.some.inj h).symm⟩
      · rw [AList.lookup_insert_ne hkey] at h
        exact .inr (hcleared key last h)
    · intro h
      dsimp only at h
      split at h
      · rename_i last hlast
        exact ⟨last, hcleared _ last hlast, of_decide_eq_true h⟩
      · cases h

omit [DecidableEq ι] in
/-- An offer of a request, with the table before and after it. -/
theorem offer_cases {w w' : World} {s : String} {ch : Chance} {worth : Bool}
    (h : w.perform srv (.ask (.worthCaching s)) ch = some (worth, w')) :
    (worth = false ∧ w'.prefixes = w.prefixes) ∨
    ∃ p, w.prefixes = some p ∧ worth = (p.worthCaching srv.lib.sha256 w.now s).1 ∧
      w'.prefixes = some (p.worthCaching srv.lib.sha256 w.now s).2 := by
  simp only [World.perform, World.answer] at h
  split at h
  · cases h
    exact .inl ⟨rfl, rfl⟩
  · rename_i p hp
    cases h
    exact .inr ⟨p, hp, rfl, rfl⟩

omit [DecidableEq ι] in
theorem marking_next {told : Option String} {o : Op} {x : Ans o} (h : offers o = false) :
    marking.next told o x = told := by
  cases o with
  | ask o =>
    cases o with
    | worthCaching s => cases h
    | _ => rfl
  | _ => rfl

variable {start c d : Pool ι}

/-- A move that offers nothing. -/
theorem Traced.idle (h : Traced ed srv start c) (hm : (machine ed srv).Reaches Machine.anyMove c d)
    (hp : d.state.prefixes = c.state.prefixes)
    (ht : ∀ i, marking.after none (d.log i) = marking.after none (c.log i))
    (hn : ∀ i, offerings (d.log i) = offerings (c.log i)) : Traced ed srv start d := by
  refine ⟨?_, ?_, ?_⟩
  · intro p hd
    exact h.ttl p (hp ▸ hd)
  · intro p key last hd hl
    obtain ⟨j, s, hs, ho⟩ := h.seen p key last (hp ▸ hd) hl
    exact ⟨j, s, hs, ho.later hm⟩
  · intro i s hi
    rw [ht] at hi
    obtain ⟨e, k, w, hbefore, hasks, hstep, hafter, hlast, hrep⟩ := h.told i s hi
    exact ⟨e, k, w, hbefore, hasks, hstep, hafter.trans hm, (hn i).trans hlast, hrep⟩

/-- A move that offers a prompt. -/
theorem Traced.offer (h : Traced ed srv start c) (hc : (machine ed srv).Reaches Machine.anyMove start c)
    {i : ι} {s : String} {k : Bool → Prog Op Ans (Option Event)} {worth : Bool} {w : World} (ch : Chance)
    (hp : c.prog i = .op (.ask (.worthCaching s)) k)
    (hs : c.state.perform srv (.ask (.worthCaching s)) ch = some (worth, w)) :
    Traced ed srv start (c.advance i ⟨.ask (.worthCaching s), worth⟩ (k worth) w) := by
  have hstep : (machine ed srv).step c.state (.ask (.worthCaching s)) worth w := ⟨ch, hs⟩
  have hm : (machine ed srv).Reaches Machine.anyMove c
      (c.advance i ⟨.ask (.worthCaching s), worth⟩ (k worth) w) :=
    .single (Machine.Move.run c i (.ask (.worthCaching s)) k worth w hp hstep trivial)
  have hoffered : Offered ed srv start (c.advance i ⟨.ask (.worthCaching s), worth⟩ (k worth) w)
      i s c.state.now := ⟨c, k, worth, w, hc, hp, rfl, hstep, .refl⟩
  have hcases := offer_cases hs
  refine ⟨?_, ?_, ?_⟩
  · intro p hd
    rcases hcases with ⟨-, hsame⟩ | ⟨p₀, hp₀, -, hnew⟩
    · exact h.ttl p (hsame ▸ hd)
    · obtain rfl := Option.some.inj (hnew.symm.trans hd)
      rw [(worthCaching_spec p₀ _ _ s).1]
      exact h.ttl p₀ hp₀
  · intro p key last hd hl
    rcases hcases with ⟨-, hsame⟩ | ⟨p₀, hp₀, -, hnew⟩
    · obtain ⟨j, s', hs', ho⟩ := h.seen p key last (hsame ▸ hd) hl
      exact ⟨j, s', hs', ho.later hm⟩
    · obtain rfl := Option.some.inj (hnew.symm.trans hd)
      rcases (worthCaching_spec p₀ _ _ s).2.1 key last hl with ⟨rfl, rfl⟩ | hold
      · exact ⟨i, s, rfl, hoffered⟩
      · obtain ⟨j, s', hs', ho⟩ := h.seen p₀ key last hp₀ hold
        exact ⟨j, s', hs', ho.later hm⟩
  · intro j s' hj
    by_cases hji : j = i
    · subst hji
      rw [Conf.advance_log_self, Monitor.after_append] at hj
      cases worth with
      | false => cases hj
      | true =>
        obtain rfl : s = s' := Option.some.inj hj
        rcases hcases with ⟨hfalse, -⟩ | ⟨p₀, hp₀, hworth, -⟩
        · cases hfalse
        · obtain ⟨last, hlast, hfresh⟩ := (worthCaching_spec p₀ _ _ s).2.2 hworth.symm
          obtain ⟨l, s', hs', ho⟩ := h.seen p₀ _ last hp₀ hlast
          rw [h.ttl p₀ hp₀] at hfresh
          refine ⟨c, k, w, hc, hp, hstep, .refl, ?_, l, s', last, ho, hs', hfresh⟩
          rw [Conf.advance_log_self, offerings, List.countP_append]
          rfl
    · rw [Conf.advance_log_other _ hji] at hj
      obtain ⟨e, k', w', hbefore, hasks, hstep', hafter, hlast, hrep⟩ := h.told j s' hj
      refine ⟨e, k', w', hbefore, hasks, hstep', hafter.trans hm, ?_, hrep⟩
      rw [Conf.advance_log_other _ hji]
      exact hlast

theorem traced {w : World} {prog : ι → Prog Op Ans (Option Event)}
    (hw : w.prefixes = none ∨ w.prefixes = some newPrefixCache)
    (hr : (machine ed srv).Reaches Machine.anyMove (.start w prog) c) :
    Traced ed srv (.start w prog) c := by
  induction hr with
  | refl =>
    refine ⟨?_, ?_, fun i s h => nomatch h⟩
    · intro p hp
      rcases hw with hw | hw <;> cases hw.symm.trans hp
      rfl
    · intro p key last hp hl
      rcases hw with hw | hw <;> cases hw.symm.trans hp
      cases hl
  | tail hc hm ih =>
    rename_i c d
    have hstep := hm
    cases hm with
    | env w' he _ =>
      obtain ⟨ch, he⟩ := he
      exact ih.idle (.single hstep) (change_aged he).prefixes (fun _ => rfl) (fun _ => rfl)
    | run i o k x w' hp hs _ =>
      obtain ⟨ch, hs⟩ := hs
      cases ho : offers o with
      | true =>
        cases o with
        | ask o =>
          cases o with
          | worthCaching s => exact ih.offer hc ch hp hs
          | _ => cases ho
        | _ => cases ho
      | false =>
        apply ih.idle (.single hstep) ((perform_kept hs).prefixes ho)
        · intro j
          by_cases hj : j = i
          · subst hj
            rw [Conf.advance_log_self, Monitor.after_append]
            exact marking_next ho
          · rw [Conf.advance_log_other _ hj]
        · intro j
          by_cases hj : j = i
          · subst hj
            rw [Conf.advance_log_self, offerings, List.countP_append]
            simp [ho, offerings]
          · rw [Conf.advance_log_other _ hj]

/-- Only chat requests are offered. -/
theorem Offered.chat {w : World} {tasks : ι → Task} {j : ι} {s : String} {t : Int}
    (h : Offered ed srv (.start w (fun i => (tasks i).run srv)) c j s t) : ∃ r, tasks j = .chat r := by
  obtain ⟨d, k, worth, w', hbefore, hasks, -, -, -⟩ := h
  have hrun := Machine.run_of_reaches hbefore j
  rw [hasks] at hrun
  cases htask : tasks j with
  | chat r => exact ⟨r, rfl⟩
  | probeProviders =>
    rw [htask] at hrun
    have hplain : (Monitor.only Plain).wp (fun _ _ => True) (Task.probeProviders.run srv) () :=
      Monitor.wp_seq plain_probeProviders (fun _ _ _ => trivial)
    have hok := (Monitor.wp_run hrun hplain (Monitor.relied_of_may (fun _ _ _ => trivial) () _)).1
    cases hok.1

/-- A request is sent with a mark only if its prompt was offered before, within the lifetime of
the provider's cache: by another request, unless this one was itself offered more than once. -/
theorem marked_only_after_offer (ed : Bytes → Bytes → Bytes → Bool) (srv : Server)
    (tasks : ι → Task) (w : World) (hw : w.prefixes = none ∨ w.prefixes = some newPrefixCache)
    (c : Pool ι)
    (hr : (machine ed srv).Reaches Machine.anyMove (.start w (fun i => (tasks i).run srv)) c)
    (i : ι) (u : Upstream) (k : Outcome → Prog Op Ans (Option Event))
    (hsend : c.prog i = .op (.send u) k) (hmark : u.sent.cacheSystem = true) :
    ∃ e j s t, (machine ed srv).Reaches Machine.anyMove (.start w (fun i => (tasks i).run srv)) e ∧
      (∃ k, e.prog i = .op (.ask (.worthCaching (systemOf u.sent))) k) ∧
      (machine ed srv).Reaches Machine.anyMove e c ∧
      Offered ed srv (.start w (fun i => (tasks i).run srv)) e j s t ∧
      (∃ r, tasks j = .chat r) ∧ e.state.now - t < promptCacheTTL ∧
      srv.lib.sha256 (utf8 s.toList) = srv.lib.sha256 (utf8 (systemOf u.sent).toList) ∧
      (Function.Injective srv.lib.sha256 → s = systemOf u.sent) ∧
      (offerings (c.log i) = 1 → j ≠ i) := by
  have hrun := Machine.run_of_reaches hr i
  rw [hsend] at hrun
  have hwp := Monitor.wp_run hrun (sober_run (tasks i) none)
    (Monitor.relied_of_may (fun _ _ _ => trivial) none _)
  obtain ⟨e, k', w', hbefore, hasks, hstep, hafter, hlast, j, s, t, hoffered, hsame, hfresh⟩ :=
    (traced hw hr).told i _ (hwp.1 hmark)
  have hmove := Machine.Move.run e i (.ask (.worthCaching _)) k' true w' hasks hstep
    (P := Machine.anyMove) trivial
  refine ⟨e, j, s, t, hbefore, ⟨k', hasks⟩, .head hmove hafter, hoffered, hoffered.chat, hfresh,
    hsame, ?_, ?_⟩
  · intro hinj
    have hbytes := utf8_injective (hinj hsame)
    exact String.toList_injective hbytes
  · rintro hone rfl
    have := hoffered.counted
    omega

end

/-- A request of one system prompt and one message. -/
def talkJson (p : String) : Json :=
  .obj [("model", .str "preferred"), ("messages", .arr [
    .obj [("role", .str "system"), ("content", .str p)],
    .obj [("role", .str "user"), ("content", .str "hi")]])]

def talkBody (p : String) : Bytes := GoJson.marshal (talkJson p)

def talk (p : String) : Chat :=
  { model := "preferred", maxTokens := 1024, messages := [⟨"system", p⟩, ⟨"user", "hi"⟩] }

theorem parse_talkBody (lib : Lib) {p : String} (hp : p ≠ "") :
    parseChat lib (talkBody p) = .ok (talk p) := by
  have hover : Json.Over (fun _ => True) (talkJson p) := by
    simp [talkJson, Json.Over, Json.OverFields, Json.OverField, Json.OverElems, Json.Spelled]
  have hscan : GoJson.scan (talkBody p) = some (talkJson p) :=
    GoJson.scan_marshal hover (by simp [talkJson, Json.depth, Json.depthElems, Json.depthFields, Json.depthField, GoJson.maxNestingDepth])
  have hread : strictJSON {} (chatFields lib) (talkBody p) =
      some { talk p with maxTokens := 0 } := by
    unfold strictJSON GoJson.unmarshal
    rw [hscan]
    rfl
  unfold parseChat
  rw [hread]
  simp [talk, validMessages, hp]

def waitingConfig : Config :=
  { plainConfig with
    providers := AList.insert "anthropic" { url := "https://anthropic", keyEnv := "KEY" } ∅
    rateLimitRetryMaxMs := 2000
    promptCaching := true }

def waitingServer : Server := { plainServer with c := waitingConfig }

def claude : Route := ⟨"anthropic", "claude"⟩

def waitingWorld : World :=
  World.new waitingConfig 0
    { tenant := "acme", keys := fun _ => none, current := some { plainPolicy with routes := [claude] } } ∅

abbrev waitingDriver := driver (fun _ _ _ => true) waitingServer

def zeros (n : Nat) : Chance := .random (List.replicate n 0)

/-- The table after its first prompt. -/
def seenOnce (sha256 : Bytes → Bytes) (s : String) (t : Int) : PrefixCache :=
  { newPrefixCache with seen := AList.insert (sha256 (utf8 s.toList)) t ∅ }

theorem first_offer {ed : Bytes → Bytes → Bytes → Bool} {srv : Server} {w : World} {s : String}
    (hs : promptCacheMinBytes ≤ (utf8 s.toList).length) (hw : w.prefixes = some newPrefixCache) :
    (driver ed srv).perform w (.ask (.worthCaching s)) .quiet =
      some (false, { w with prefixes := some (seenOnce srv.lib.sha256 s w.now) }) := by
  simp only [driver, World.perform, World.answer, hw, PrefixCache.worthCaching, if_neg (Nat.not_lt.mpr hs)]
  rfl

theorem second_offer {ed : Bytes → Bytes → Bytes → Bool} {srv : Server} {w : World} {s : String} {t : Int}
    (hs : promptCacheMinBytes ≤ (utf8 s.toList).length)
    (hw : w.prefixes = some (seenOnce srv.lib.sha256 s t)) (ht : w.now = t) :
    (driver ed srv).perform w (.ask (.worthCaching s)) .quiet =
      some (true, { w with prefixes := some (seenOnce srv.lib.sha256 s w.now) }) := by
  have hfound : (seenOnce srv.lib.sha256 s t).seen.lookup (srv.lib.sha256 (utf8 s.toList)) = some t :=
    AList.lookup_insert _
  simp only [driver, World.perform, World.answer, hw, PrefixCache.worthCaching, if_neg (Nat.not_lt.mpr hs)]
  subst ht
  have hroom : ¬ (seenOnce srv.lib.sha256 s w.now).max ≤ (seenOnce srv.lib.sha256 s w.now).seen.size :=
    show ¬ promptCacheMaxTracked ≤ 1 by decide
  rw [if_neg hroom, hfound]
  simp [seenOnce, newPrefixCache, promptCacheTTL, second]

/-- The first token of a bucket that has some. -/
theorem allow_first :
    (newBucket 0 10 10).allow 0 = (true, ((newBucket 0 10 10).allow 0).2) := by
  have h : ((newBucket 0 10 10).allow 0).1 = true := by decide +kernel
  exact Prod.ext h rfl

theorem rate_granted {ed : Bytes → Bytes → Bytes → Bool} {srv : Server} {w : World} (hb : w.rate = newBucket 0 10 10) (hn : w.now = 0) :
    (driver ed srv).perform w (.ask .rateAllow) .quiet =
      some (true, { w with rate := ((newBucket 0 10 10).allow 0).2 }) := by
  simp only [driver, World.perform, World.answer, hb, hn]
  rw [allow_first]

theorem retry_granted {ed : Bytes → Bytes → Bytes → Bool} {srv : Server} {w : World} (hb : w.retry = newBucket 0 10 10) (hn : w.now = 0) :
    (driver ed srv).perform w (.ask .retryAllow) .quiet =
      some (true, { w with retry := ((newBucket 0 10 10).allow 0).2 }) := by
  simp only [driver, World.perform, World.answer, hb, hn]
  rw [allow_first]

/-- The program is about to send a request with a mark. -/
def Marks (p : Prog Op Ans (Option Event)) (_ : World) : Prop :=
  ∃ u k, p = .op (.send u) k ∧ u.sent.cacheSystem = true

/-- A request alone, whose provider asks for a moment's patience, goes out marked the second time. -/
theorem leads_to_mark {p : String} (hp : p ≠ "")
    (hlong : promptCacheMinBytes ≤ (utf8 p.toList).length) :
    waitingDriver.Leads Marks ((Task.chat (plainRequest "")).run waitingServer) waitingWorld := by
  refine .next .quiet rfl rfl ?_
  refine .next (zeros 16) rfl rfl ?_
  refine .next (zeros 16) rfl rfl ?_
  refine .next (zeros 16) rfl rfl ?_
  refine .next (zeros 8) rfl rfl ?_
  refine .next .quiet rfl rfl ?_
  refine .next .quiet rfl rfl ?_
  refine .next .quiet rfl rfl ?_
  refine .next .quiet rfl rfl ?_
  refine .next .quiet rfl rfl ?_
  refine .next .quiet rfl (rate_granted rfl rfl) ?_
  refine .next .quiet rfl rfl ?_
  refine .next .quiet rfl rfl ?_
  refine .next (.body (some (talkBody p))) rfl rfl ?_
  simp only [Prog.bind, parse_talkBody _ hp]
  refine .from (fun b : Bucket × (Metric → Int) =>
    { waitingWorld with rate := b.1, metrics := b.2, slots := 1 }) (_, _) rfl ?_
  intro ⟨r, m⟩
  refine .next .quiet rfl rfl ?_
  refine .next .quiet rfl rfl ?_
  refine .next .quiet rfl rfl ?_
  refine .next .quiet rfl rfl ?_
  refine .next .quiet rfl rfl ?_
  refine .from (fun c => { waitingWorld with rate := r, metrics := m, slots := 1,
                                             circuits := AList.insert "anthropic" {} c }) _ rfl ?_
  intro c
  refine .next (o := Op.ask (Ask.worthCaching p)) .quiet rfl (first_offer hlong rfl) ?_
  refine .next (.outcome (.response 429 "1" "" ⟨[], false⟩)) rfl rfl ?_
  refine .next .quiet rfl rfl ?_
  refine .next .quiet rfl rfl ?_
  refine .next .quiet rfl rfl ?_
  refine .next .quiet rfl rfl ?_
  refine .next (.flag true) rfl rfl ?_
  refine .next .quiet rfl rfl ?_
  refine .next .quiet rfl (retry_granted rfl rfl) ?_
  refine .next .quiet rfl rfl ?_
  refine .next .quiet rfl rfl ?_
  refine .next (.flag true) rfl rfl ?_
  refine .next (o := Op.ask (Ask.worthCaching p)) .quiet rfl (second_offer hlong rfl rfl) ?_
  refine .next .quiet rfl rfl ?_
  refine .next .quiet rfl rfl ?_
  exact .here _ _ ⟨_, _, rfl, rfl⟩

/-- The shortest prompt that may be worth caching. -/
def longPrompt : String := String.ofList (List.replicate promptCacheMinBytes 'a')

theorem longPrompt_length : (utf8 longPrompt.toList).length = promptCacheMinBytes := by
  have hascii : Ascii (List.replicate promptCacheMinBytes 'a') := by
    intro c hc
    rw [List.eq_of_mem_replicate hc]
    decide
  rw [longPrompt, String.toList_ofList, utf8_length_ascii hascii, List.length_replicate]

theorem longPrompt_ne : longPrompt ≠ "" := by
  intro h
  have := longPrompt_length
  rw [h] at this
  exact absurd this (by decide)

/-- A server that hears one request and nothing else. -/
def alone : Pool Unit :=
  .start waitingWorld (fun _ => (Task.chat (plainRequest "")).run waitingServer)

theorem alone_marks :
    ∃ (c : Pool Unit) (u : Upstream) (k : Outcome → Prog Op Ans (Option Event)),
      (machine (fun _ _ _ => true) waitingServer).Reaches Machine.anyMove alone c ∧
      c.prog () = .op (.send u) k ∧ u.sent.cacheSystem = true := by
  obtain ⟨c, hc, u, k, hsend, hmark⟩ :=
    (leads_to_mark longPrompt_ne longPrompt_length.ge).reaches (c := alone) (i := ()) rfl rfl
  exact ⟨c, u, k, hc, hsend, hmark⟩

/-- The one request there is was offered twice. -/
theorem marked_only_after_offer_alone :
    ∃ (c e : Pool Unit) (u : Upstream) (k : Outcome → Prog Op Ans (Option Event)) (s : String)
      (t : Int), c.prog () = .op (.send u) k ∧ u.sent.cacheSystem = true ∧
      Offered (fun _ _ _ => true) waitingServer alone e () s t ∧ e.state.now - t < promptCacheTTL := by
  obtain ⟨c, u, k, hc, hsend, hmark⟩ := alone_marks
  obtain ⟨e, j, s, t, -, -, -, hoffered, -, hfresh, -, -, -⟩ :=
    marked_only_after_offer (fun _ _ _ => true) waitingServer
      (fun _ : Unit => Task.chat (plainRequest "")) waitingWorld (.inr rfl) c hc () u k hsend hmark
  exact ⟨c, e, u, k, s, t, hsend, hmark, hoffered, hfresh⟩

/-- A prompt that occurs in one request only is sent with a mark. -/
theorem one_off_prompt_marked :
    ∃ (c : Pool Unit) (u : Upstream) (k : Outcome → Prog Op Ans (Option Event)),
      (machine (fun _ _ _ => true) waitingServer).Reaches Machine.anyMove alone c ∧
      c.prog () = .op (.send u) k ∧ u.sent.cacheSystem = true ∧
      ∀ e j s t, Offered (fun _ _ _ => true) waitingServer alone e j s t → j = () := by
  obtain ⟨c, u, k, hc, hsend, hmark⟩ := alone_marks
  exact ⟨c, u, k, hc, hsend, hmark, fun _ _ _ _ _ => rfl⟩

end Switchboard.Proofs.Marking
