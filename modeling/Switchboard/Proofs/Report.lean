import Switchboard.Proofs.Attempts

namespace Switchboard.Proofs.Tally
open Text Gateway Outline
open Effect (Monitor Prog)

/-- The key does not stand in the way. -/
def Proceeds : Option (Except StoreError (Option IdemEntry)) → Prop
  | some (.error .mismatch) => False
  | some (.error .conflict) => False
  | some (.ok (some _)) => False
  | _ => True

/-- A request with nothing to its account yet. -/
structure Blank (event : Event) (g : Sheet) : Prop where
  replayed : event.replayed = false
  version : event.policyVersion = 0
  attempts : event.attempts = 0
  provider : event.provider = ""
  model : event.model = ""
  fault : event.fault = ""
  skipped : event.budgetSkipped = []
  usage : event.usage = {}
  could : g.could = false
  prior : Proceeds g.prior
  sent : g.sent = []
  shown : g.shown = none
  said : g.said = []
  lost : g.lost = false

/-- What `replay` writes. -/
def Replays (e : IdemEntry) (said : Bytes) : Prop :=
  if e.stream = true then
    ∃ id created, said = sseFrame (chunk id {} { text := e.text, finish := e.finish } created) ++
      ascii "data: [DONE]\n\n"
  else said = (e.response.map GoJson.marshal).getD []

/-- Every status with which a request ends that was not answered from the store. -/
def ownStatuses : List Int := [401, 413, 429] ++ routedStatuses

/-- What the client of a request has been told, by what became of its key. -/
def Spoken (lib : Lib) (event : Event) (g : Sheet) : Prop :=
  match g.prior with
  | some (.error .mismatch) => event.status = 422 ∧ g.shown = some 422 ∧ g.sent = []
  | some (.error .conflict) => event.status = 409 ∧ g.shown = some 409 ∧ g.sent = []
  | some (.ok (some e)) => event.status = e.status ∧ event.replayed = true ∧
      g.shown = some (if e.stream = true then 200 else e.status) ∧ g.sent = [] ∧ Replays e g.said
  | _ => event.status ∈ ownStatuses ∧ Shows lib event.status g

/-- What an event says about the policy its request was routed by, if it was. -/
def Routed (A : Assume) (limit : Int) (base event : Event) : Prop :=
  core event = core base ∧ event.policyVersion = 0 ∧ event.attempts = 0 ∧ event.provider = "" ∧
    event.model = "" ∧ event.fault = "" ∧ event.budgetSkipped = [] ∧ event.usage = {} ∨
  ∃ p, A.policy p ∧ Facts base limit p p.routes event

/-- A request that has been handled. -/
structure Answered (A : Assume) (srv : Server) (base event : Event) (g : Sheet) : Prop where
  routed : Routed A srv.c.maxAttempts base event
  spoken : Spoken srv.lib event g
  used : Charged srv.lib g.lost event.usage (lastAnswer event.status g.sent) g.sent
  names : Names event (lastAnswer event.status g.sent)
  tried : A.alone → g.could = true → 0 < event.attempts

section
variable {A : Assume} {k : Inference} {g : Sheet} {event base : Event}

theorem spoken_of_shows {lib : Lib} (hp : Proceeds g.prior) (hs : event.status ∈ ownStatuses)
    (h : Shows lib event.status g) : Spoken lib event g := by
  unfold Spoken
  split <;> simp_all [Proceeds]

/-- A request that is answered before it is routed. -/
theorem Blank.answered {srv : Server} {status : Int} (h : Blank event g) (b : Bytes) (ok : Bool)
    (hs : status ∈ ownStatuses) :
    Answered A srv event { event with status := status } (g.speak status b ok) := by
  refine ⟨.inl ⟨rfl, h.version, h.attempts, h.provider, h.model, h.fault, h.skipped, h.usage⟩, ?_,
    charged_nil h.sent h.usage, names_nil h.sent, ?_⟩
  · refine spoken_of_shows h.prior hs (.inr ⟨?_, ?_⟩)
    · simp [Sheet.speak, h.sent, Mistyped]
    · simp [Sheet.speak, h.shown]
  · simp [Sheet.speak, h.could]

theorem Answered.core {srv : Server} (h : Answered A srv base event g) :
    Tally.core event = Tally.core base := by
  rcases h.routed with hnone | ⟨p, -, hf⟩
  · exact hnone.1
  · exact hf.core

/-- A route that could be tried. -/
def Usable (k : Inference) (sure : List String) (route : Route) : Prop :=
  (k.srv.c.providers.lookup route.provider).isSome = true ∧ route.provider ∈ sure

/-- What the first pass over the routes finds. -/
structure Passed (k : Inference) (routes : List Route) (g : Sheet) (r : List Bool × Nat) (g' : Sheet) :
    Prop where
  kept : g' = { g with could := g'.could, sure := g'.sure }
  grows : ∀ p ∈ g.sure, p ∈ g'.sure
  length : r.1.length = routes.length
  count : r.1.count true ≤ r.2
  could : g'.could = true → g.could = true ∨ 0 < r.2
  usable : 0 < r.2 → ∃ route ∈ routes, Usable k g'.sure route
  unskipped : r.1.count true < r.2 → ∃ x ∈ routes.zip r.1, x.2 = false ∧ Usable k g'.sure x.1

theorem Passed.skip {route : Route} {routes : List Route} {skips : List Bool} {eligible : Nat}
    {g' : Sheet} (h : Passed k routes g (skips, eligible) g') :
    Passed k (route :: routes) g (false :: skips, eligible) g' := by
  refine ⟨h.kept, h.grows, by simp [h.length], by simpa using h.count, h.could, fun he => ?_, fun hc => ?_⟩
  · obtain ⟨r, hr, hu⟩ := h.usable he
    exact ⟨r, List.mem_cons_of_mem _ hr, hu⟩
  · obtain ⟨x, hx, hs, hu⟩ := h.unskipped (by simpa using hc)
    exact ⟨x, by simp [hx], hs, hu⟩

theorem Passed.eligible {route : Route} {routes : List Route} {skips : List Bool} {eligible : Nat}
    {g' : Sheet} (skip : Bool)
    (hu : (k.srv.c.providers.lookup route.provider).isSome = true)
    (h : Passed k routes { g with could := true, sure := route.provider :: g.sure } (skips, eligible) g') :
    Passed k (route :: routes) g (skip :: skips, eligible + 1) g' := by
  have hroute : Usable k g'.sure route := ⟨hu, h.grows _ List.mem_cons_self⟩
  have hcount := h.count
  dsimp only at hcount
  refine ⟨h.kept, fun p hp => h.grows p (List.mem_cons_of_mem _ hp), by simp [h.length], ?_,
    fun _ => .inr (Nat.succ_pos _), fun _ => ⟨route, List.mem_cons_self, hroute⟩, fun hc => ?_⟩
  · cases skip <;> simp <;> omega
  · cases skip with
    | false => exact ⟨(route, false), by simp, rfl, hroute⟩
    | true =>
      obtain ⟨x, hx, hs, hu⟩ := h.unskipped (by simpa using hc)
      exact ⟨x, by simp [hx], hs, hu⟩

theorem prepass_spec (routes : List Route) (g : Sheet) :
    (account k.srv A).wp (Passed k routes g) (prepass k routes) g := by
  induction routes generalizing g with
  | nil => exact ⟨rfl, fun _ h => h, rfl, by simp, fun h => .inl h, by simp, by simp⟩
  | cons route routes ih =>
    have hskip : (account k.srv A).wp (fun r g' => Passed k (route :: routes) g (false :: r.1, r.2) g')
        (prepass k routes) g := Monitor.wp_mono (ih g) (fun r g' h => h.skip)
    unfold prepass routable
    rw [Monitor.wp_bind_iff]
    split
    · exact Monitor.wp_seq hskip (fun _ _ h => h)
    · rename_i pc hpc
      split
      · exact Monitor.wp_seq hskip (fun _ _ h => h)
      · rw [wp_wouldAllow]
        refine ⟨Monitor.wp_seq hskip (fun _ _ h => h), ?_⟩
        have hrest : ∀ skip, (account k.srv A).wp
            (fun r g' => Passed k (route :: routes) g (skip :: r.1, r.2 + 1) g') (prepass k routes)
            { g with could := true, sure := route.provider :: g.sure } :=
          fun skip => Monitor.wp_mono (ih _) (fun r g' h => h.eligible skip (by simp [hpc]))
        simp only [if_true]
        rw [Monitor.wp_bind_iff, wp_ask (by simp)]
        intro skip
        split
        · simp only [Prog.pure_def, Prog.ret_bind]
          exact Monitor.wp_seq (hrest true) (fun _ _ h => h)
        · rw [Monitor.wp_bind_iff, wp_ask (by simp)]
          exact fun unhealthy => Monitor.wp_seq (hrest unhealthy) (fun _ _ h => h)

/-- Whatever the first pass found, some route that could be tried is not passed over. -/
theorem Passed.due {routes : List Route} {r : List Bool × Nat} {g' : Sheet}
    (h : Passed k routes g r g') (hg : g.could = false) (hc : g'.could = true) :
    ∃ x ∈ routes.zip (skipped r.1 r.2), x.2 = false ∧ Usable k g'.sure x.1 := by
  have he : 0 < r.2 := by
    rcases h.could hc with hf | he
    · simp [hg] at hf
    · exact he
  unfold skipped
  split
  · obtain ⟨route, hr, hu⟩ := h.usable he
    obtain ⟨i, hi, rfl⟩ := List.mem_iff_getElem.mp hr
    refine ⟨(routes[i], false), ?_, rfl, hu⟩
    rw [List.mem_iff_getElem]
    have hlen := h.length
    exact ⟨i, by simp [hlen, hi], by simp⟩
  · rename_i hne
    have hcount := h.count
    exact h.unskipped (by omega)

theorem Told.answered {J : Job} (h : Told k J J.policy.routes event g) (hp : A.policy J.policy)
    (hproceeds : Proceeds J.prior) (htried : A.alone → J.could = true → 0 < event.attempts) :
    Answered A k.srv J.base event g := by
  refine ⟨.inr ⟨J.policy, hp, h.toFacts⟩, spoken_of_shows ?_ ?_ h.shows, h.used, h.names,
    fun ha hc => ?_⟩
  · rw [h.kept.2]
    exact hproceeds
  · exact List.mem_append_right _ h.status
  · exact htried ha (h.kept.1 ▸ hc)

/-- A request that nothing has happened to is routed. -/
theorem dispatch_spec (hmax : A.alone → 0 < k.srv.c.maxAttempts) (h : Blank event g) :
    (account k.srv A).wp (fun e g' => Answered A k.srv event e.event g') (dispatch k event) g := by
  unfold dispatch
  rw [Monitor.wp_bind_iff, wp_currentPolicy]
  intro p hpolicy
  have hblank : Blank event { g with policy := p } :=
    ⟨h.replayed, h.version, h.attempts, h.provider, h.model, h.fault, h.skipped, h.usage, h.could,
      h.prior, h.sent, h.shown, h.said, h.lost⟩
  cases p with
  | none =>
    dsimp only
    rw [wp_fail]
    exact fun ok => hblank.answered _ ok (by decide)
  | some p =>
    dsimp only
    refine Monitor.wp_seq (prepass_spec p.routes _) ?_
    intro r g' hr
    have hkept := hr.kept
    have hgoing : Going k ⟨event, p, g.prior, g'.could⟩ []
        { event := { event with policyVersion := p.version } } g' := by
      rw [hkept]
      have hfits : Usage.Fits event.usage := h.usage ▸ Usage.fits_none
      refine ⟨⟨⟨rfl, h.replayed, rfl, by simp [h.attempts], by simp [h.attempts],
        fun _ => ⟨h.provider, h.model⟩, by simp [h.attempts], .inl h.fault, by simp [h.skipped], hfits⟩,
        ⟨rfl, rfl⟩, h.shown, h.lost, by simp [h.sent, Mistyped], ?_, by simp [h.sent, Sets]⟩,
        by simp [h.sent, Names]⟩
      simp [h.sent, h.usage, owed]
    refine Monitor.wp_mono (routeLoop_spec hmax _ [] ?_ _ _ hgoing (A.alone ∧ g'.could = true) ?_) ?_
    · have hlength : p.routes.length ≤ (skipped r.1 r.2).length := by
        unfold skipped
        split <;> simp [hr.length]
      simp [List.map_fst_zip hlength]
    · rintro ⟨halone, hc⟩
      obtain ⟨x, hx, hs, hu⟩ := hr.due h.could hc
      exact ⟨halone, .inr ⟨x, hx, halone, hs, hu⟩⟩
    · intro e g'' he
      exact he.1.answered (hpolicy p rfl) h.prior (fun ha hc => he.2 ⟨ha, hc⟩)

theorem replay_spec {id : String} {start : Int} {e : IdemEntry} (h : Blank event g) :
    (account k.srv A).wp (fun ended g' => Answered A k.srv event ended.event g')
      (replay id start e event) { g with prior := some (.ok (some e)) } := by
  have hrouted : Routed A k.srv.c.maxAttempts event { event with status := e.status, replayed := true } :=
    .inl ⟨rfl, h.version, h.attempts, h.provider, h.model, h.fault, h.skipped, h.usage⟩
  unfold replay
  dsimp only
  rw [Monitor.wp_bind_iff, wp_setHeader]
  split
  · rename_i hs
    simp only [Monitor.wp_bind_iff, wp_setHeader, wp_writeHeader, wp_write, Sheet.speak_speak]
    intro ok
    have hs : e.stream = false := by simpa using hs
    refine ⟨hrouted, ⟨rfl, rfl, ?_, h.sent, ?_⟩, charged_nil h.sent h.usage, names_nil h.sent, fun _ hc => ?_⟩
    · simp [Sheet.speak, h.shown, hs]
    · simp only [Replays, hs, Bool.false_eq_true, if_false, Sheet.speak, h.said, List.nil_append]
      cases e.response <;> rfl
    · simp [Sheet.speak, h.could] at hc
  · rename_i hs
    simp only [Monitor.wp_bind_iff, wp_setHeader, wp_write, Sheet.speak_speak]
    intro ok ok'
    have hs : e.stream = true := by simpa using hs
    refine ⟨hrouted, ⟨rfl, rfl, ?_, h.sent, ?_⟩, charged_nil h.sent h.usage, names_nil h.sent, fun _ hc => ?_⟩
    · simp [Sheet.speak, h.shown, hs]
    · simp only [Replays, hs, if_true, Sheet.speak, h.said, List.nil_append]
      exact ⟨_, _, rfl⟩
    · simp [Sheet.speak, h.could] at hc

/-- A request whose key was refused. -/
theorem Blank.refused {srv : Server} {e : StoreError} {status : Int} (h : Blank event g) (b : Bytes)
    (ok : Bool) (hs : e = .mismatch ∧ status = 422 ∨ e = .conflict ∧ status = 409) :
    Answered A srv event { event with status := status }
      ({ g with prior := some (.error e) }.speak status b ok) := by
  refine ⟨.inl ⟨rfl, h.version, h.attempts, h.provider, h.model, h.fault, h.skipped, h.usage⟩, ?_,
    charged_nil h.sent h.usage, names_nil h.sent, ?_⟩
  · rcases hs with ⟨rfl, rfl⟩ | ⟨rfl, rfl⟩
    · exact ⟨rfl, by simp [Sheet.speak, h.shown], h.sent⟩
    · exact ⟨rfl, by simp [Sheet.speak, h.shown], h.sent⟩
  · simp [Sheet.speak, h.could]

theorem Blank.claimed (h : Blank event g) {r : Except StoreError (Option IdemEntry)}
    (hr : Proceeds (some r)) : Blank event { g with prior := some r } :=
  ⟨h.replayed, h.version, h.attempts, h.provider, h.model, h.fault, h.skipped, h.usage, h.could, hr,
    h.sent, h.shown, h.said, h.lost⟩

theorem claim_spec (hmax : A.alone → 0 < k.srv.c.maxAttempts) (h : Blank event g) :
    (account k.srv A).wp (fun e g' => Answered A k.srv event e.event g') (claim k event) g := by
  unfold claim
  split
  · exact dispatch_spec hmax h
  · have hdispatch : ∀ r, Proceeds (some r) →
        (account k.srv A).wp (fun e g' => Answered A k.srv event e.event g') (do
          let e ← dispatch k event
          if !e.settled then releaseKey k.key
          pure e) { g with prior := some r } := by
      intro r hr
      refine Monitor.wp_seq (dispatch_spec hmax (h.claimed hr)) ?_
      intro e g' he
      split
      · rw [Monitor.wp_bind_iff, wp_releaseKey]
        exact he
      · exact he
    rw [Monitor.wp_bind_iff, wp_beginKey]
    intro r
    rcases r with e | prior
    · cases e with
      | mismatch =>
        dsimp only
        rw [wp_fail]
        exact fun ok => h.refused _ ok (.inl ⟨rfl, rfl⟩)
      | conflict =>
        dsimp only
        rw [wp_fail]
        exact fun ok => h.refused _ ok (.inr ⟨rfl, rfl⟩)
      | full => exact hdispatch _ trivial
      | disk => exact hdispatch _ trivial
    · cases prior with
      | some e => exact replay_spec h
      | none => exact hdispatch _ trivial

end

section
variable {A : Assume} {srv : Server} {g : Sheet} {event : Event}

theorem account_clerical (event : Event) {o : Op} (h : Clerical o) :
    (account srv A).ok g o ∧ ∀ x, Blank event g → Blank event ((account srv A).next g o x) := by
  have hsame : ∀ {o : Op}, (∀ x, (account srv A).next g o x = g) →
      ∀ x, Blank event g → Blank event ((account srv A).next g o x) :=
    fun hn x hg => (hn x).symm ▸ hg
  cases o with
  | now => exact ⟨trivial, fun x hg => { hg with }⟩
  | currentPolicy => exact ⟨trivial, fun x hg => { hg with }⟩
  | tell o =>
    cases o with
    | count m n => exact ⟨nofun, hsame (fun _ => rfl)⟩
    | releaseSlot => exact ⟨nofun, hsame (fun _ => rfl)⟩
    | _ => cases h
  | ask o => cases o <;> first | exact ⟨trivial, hsame (fun _ => rfl)⟩ | cases h
  | randomID n => exact ⟨trivial, hsame (fun _ => rfl)⟩
  | readBody => exact ⟨trivial, hsame (fun _ => rfl)⟩
  | syncState => exact ⟨trivial, hsame (fun _ => rfl)⟩
  | setHeader name value => exact ⟨trivial, hsame (fun _ => rfl)⟩
  | _ => cases h

theorem serve_spec {r : Request} {id : String} {start : Int}
    (hmax : A.alone → 0 < srv.c.maxAttempts) (h : Blank event g) :
    (account srv A).wp (fun e g' => Answered A srv event e.event g') (serve srv r id start event) g := by
  have hserves : Serves event (fun p => ∀ g, Blank event g →
      (account srv A).wp (fun e => Answered A srv event e.event) p g) := by
    apply serves_wp
    · exact fun g o ho => (account_clerical event ho).1
    · exact fun g o x ho => (account_clerical event ho).2 x
    · intro o ho
      cases o with
      | tell o => cases o <;> first | exact fun _ => ⟨nofun, fun _ => rfl⟩ | cases ho
      | _ => cases ho
    · intro g status msg hs hg
      have hown : refusals ⊆ ownStatuses := by decide
      rw [wp_fail]
      exact fun ok => hg.answered _ ok (hown hs)
  refine hserves.serve (fun b c _ g hg => ?_) g h
  exact claim_spec (k := ⟨srv, r.idempotencyKey, id, start, b, c⟩) hmax hg

/-- The clock has not gone back. -/
def Later (A : Assume) (g g' : Sheet) : Prop :=
  A.steady → ∀ t, g.time = some t → ∃ t', g'.time = some t' ∧ t ≤ t'

theorem Later.refl (g : Sheet) : Later A g g := fun _ t ht => ⟨t, ht, le_refl t⟩

theorem Later.trans {a b c : Sheet} (hab : Later A a b) (hbc : Later A b c) : Later A a c := by
  intro hs t ht
  obtain ⟨u, hu, htu⟩ := hab hs t ht
  obtain ⟨v, hv, huv⟩ := hbc hs u hu
  exact ⟨v, hv, htu.trans huv⟩

theorem later_next (g : Sheet) (o : Op) (x : Ans o) (h : (account srv A).may g o x) :
    Later A g ((account srv A).next g o x) := by
  cases o with
  | now => exact fun hs t ht => ⟨x, rfl, (h hs).2 t ht⟩
  | ask o => cases o <;> exact .refl g
  | tell o => cases o <;> exact .refl g
  | wouldAllow p => cases x <;> exact fun _ t ht => ⟨t, ht, le_refl t⟩
  | allow p => cases x <;> exact fun _ t ht => ⟨t, ht, le_refl t⟩
  | _ => exact fun _ t ht => ⟨t, ht, le_refl t⟩

/-- What is measured of the route that an event names. -/
def measurement (event : Event) : List (String × String × TokenUsage) :=
  if 0 < event.attempts then [(event.provider, event.model, event.usage)] else []

/-- What is known of an event when it is emitted. -/
structure Emitted (A : Assume) (srv : Server) (event : Event) (g : Sheet) : Prop where
  answered : ∃ base, Answered A srv base event g
  emits : g.emits = if srv.telemetry = true then [event] else []
  measured : g.measured = measurement event
  ids : A.hex → HexText 32 event.id ∧ HexText 32 event.requestID ∧ HexText 32 event.traceID ∧
    HexText 16 event.spanID ∧ (event.parentID = "" ∨ HexText 16 event.parentID)
  clock : A.steady → 0 < event.start ∧ event.start ≤ event.finish ∧
    ∃ t, g.time = some t ∧ event.finish ≤ t

/-- Looking at the clock once more and reporting the event changes nothing else. -/
theorem Answered.told {base : Event} (h : Answered A srv base event g) (time : Option Int)
    (emits : List Event) (measured : List (String × String × TokenUsage)) :
    Answered A srv base event { g with time := time, emits := emits, measured := measured } :=
  ⟨h.routed, h.spoken, h.used, h.names, h.tried⟩

theorem Answered.finish {base : Event} (h : Answered A srv base event g) (t : Int) :
    Answered A srv base { event with finish := t } g := by
  refine ⟨?_, h.spoken, h.used, h.names, h.tried⟩
  rcases h.routed with hnone | ⟨p, hp, hf⟩
  · exact .inl hnone
  · exact .inr ⟨p, hp, hf.core, hf.replayed, hf.version, hf.nonneg, hf.bounded, hf.unnamed, hf.named,
      hf.fault, hf.skipped, hf.usage⟩

theorem wp_measure {start : Int} {Q : Unit → Sheet → Prop} (hsilent : ¬ A.silent)
    (h : ∀ time, Q () { g with time := time, measured := g.measured ++ measurement event }) :
    (account srv A).wp Q (Gateway.measure start event) g := by
  unfold Gateway.measure
  unfold measurement at h
  split
  · rename_i ha
    rw [Monitor.wp_bind_iff, wp_now]
    intro t _
    rw [wp_observeRoute hsilent]
    simpa [ha] using h (some t)
  · rename_i ha
    simpa [ha] using h g.time

theorem wp_recordCapture {ended : Ended} {Q : Unit → Sheet → Prop}
    (h : ∀ time, Q () { g with time := time }) :
    (account srv A).wp Q (record srv ended event) g := by
  unfold record
  split
  · simp only [Monitor.wp_bind_iff, wp_now, wp_tell, closing]
    exact fun t _ => h _
  · exact h g.time

theorem epilogue_spec {base : Event} {start : Int} {ended : Ended}
    (hsilent : ¬ A.silent) (h : Answered A srv base ended.event g) :
    (account srv A).wp (fun event g' => Answered A srv base event g' ∧
      g'.emits = g.emits ++ (if srv.telemetry = true then [event] else []) ∧
      g'.measured = g.measured ++ measurement event ∧
      ∃ t, event = { ended.event with finish := t } ∧
        (A.steady → ∀ last, g.time = some last → last ≤ t) ∧
        (A.steady → ∃ t', g'.time = some t' ∧ t ≤ t')) (epilogue srv start ended) g := by
  unfold epilogue
  rw [Monitor.wp_bind_iff, wp_now]
  intro t ht
  have hrest : (account srv A).wp (fun event g' => Answered A srv base event g' ∧
      g'.emits = g.emits ++ (if srv.telemetry = true then [event] else []) ∧
      g'.measured = g.measured ++ measurement event ∧
      event = { ended.event with finish := t }) (do
        Gateway.measure start { ended.event with finish := t }
        tellIf (decide (400 ≤ ended.event.status) || ended.event.streamFailed) (.count .errors 1)
        tellIf srv.telemetry (.emit { ended.event with finish := t })
        record srv ended { ended.event with finish := t }
        pure { ended.event with finish := t }) { g with time := some t } := by
    rw [Monitor.wp_bind_iff]
    refine wp_measure hsilent (fun time => ?_)
    rw [Monitor.wp_bind_iff, wp_tellIf (by rfl), Monitor.wp_bind_iff]
    cases srv.telemetry with
    | true =>
      refine (wp_emit hsilent).mpr ?_
      rw [Monitor.wp_bind_iff]
      refine wp_recordCapture (fun time' => ?_)
      exact ⟨(h.finish t).told time' _ _, rfl, rfl, rfl⟩
    | false =>
      refine (Monitor.wp_ret _ _ _ _).mpr ?_
      rw [Monitor.wp_bind_iff]
      refine wp_recordCapture (fun time' => ?_)
      exact ⟨(h.finish t).told time' _ _, (List.append_nil _).symm, rfl, rfl⟩
  refine Monitor.wp_mono (Monitor.wp_tracked (Later.refl (A := A)) (fun _ _ _ => Later.trans)
    (fun g o x _ => later_next g o x) hrest) ?_
  rintro event g' ⟨⟨hanswered, hemits, hmeasured, rfl⟩, hlater⟩
  exact ⟨hanswered, hemits, hmeasured, t, rfl, fun hs => (ht hs).2, fun hs => hlater hs t rfl⟩

/-- Nothing has been reported. -/
def Silent (g g' : Sheet) : Prop := g'.emits = g.emits ∧ g'.measured = g.measured

theorem silent_next (hsilent : A.silent) (g : Sheet) (o : Op) (x : Ans o) (h : (account srv A).ok g o) :
    Silent g ((account srv A).next g o x) := by
  cases o with
  | tell o =>
    cases o with
    | emit e => exact absurd hsilent (h rfl)
    | observeRoute p m status ms u => exact absurd hsilent (h rfl)
    | _ => exact ⟨rfl, rfl⟩
  | ask o => cases o <;> exact ⟨rfl, rfl⟩
  | wouldAllow p => cases x <;> exact ⟨rfl, rfl⟩
  | allow p => cases x <;> exact ⟨rfl, rfl⟩
  | _ => exact ⟨rfl, rfl⟩

/-- The account of a program that emits no event, whatever is assumed otherwise. -/
theorem relax_silent {Q : α → Sheet → Prop} {p : M α}
    (h : (account srv { A with silent := True }).wp Q p g) : (account srv A).wp Q p g := by
  refine Monitor.wp_relax ?_ (fun g o x hx => ?_) (fun g o x => ?_) h
  · intro g o ho
    cases o with
    | tell o => exact fun hc => absurd trivial (ho hc)
    | finishKey key e => exact ho
    | settle p s =>
      cases s with
      | result failed => cases failed <;> exact ho
      | _ => trivial
    | _ => trivial
  · cases o <;> exact hx
  · rfl

theorem lowerChar_hex {c : Char} (h : (hexValue c).isSome = true) :
    Strings.lowerChar c ∈ "0123456789abcdef".toList := by
  have hall : ∀ n < 128, (hexValue (Char.ofNat n)).isSome = true →
      Strings.lowerChar (Char.ofNat n) ∈ "0123456789abcdef".toList := by decide
  have hlt : c.toNat < 128 := by
    unfold hexValue at h
    split at h
    · rename_i hc
      have : c.toNat ≤ 57 := hc.2
      omega
    · split at h
      · rename_i hc
        have : c.toNat ≤ 102 := hc.2
        omega
      · split at h
        · rename_i hc
          have : c.toNat ≤ 70 := hc.2
          omega
        · cases h
  have hc := hall c.toNat hlt
  rw [Char.ofNat_toNat] at hc
  exact hc h

theorem hexText_lower {cs : List Char} {n : Nat} (hl : cs.length = n) (h : isHex cs = true) :
    HexText n (String.ofList (Strings.toLower cs)) := by
  refine ⟨by simp [Strings.toLower, hl], fun c hc => ?_⟩
  simp only [Strings.toLower, String.toList_ofList, List.mem_map] at hc
  obtain ⟨d, hd, rfl⟩ := hc
  exact lowerChar_hex (List.all_eq_true.mp h d hd)

theorem traceIDs_spec {header : String} {Q : String × String → Sheet → Prop}
    (h : ∀ trace parent, (A.hex → HexText 32 trace) → (parent = "" ∨ HexText 16 parent) →
      Q (trace, parent) g) :
    (account srv A).wp Q (traceIDs header) g := by
  have hnew : (account srv A).wp Q (do let t ← randomID 16; pure (t, "")) g := by
    rw [Monitor.wp_bind_iff, wp_randomID]
    exact fun t ht => h t "" ht (.inl rfl)
  unfold traceIDs
  split
  · split
    · rename_i hok
      obtain ⟨-, ht, hs, -, hnt, hns, -⟩ := hok
      simp only [nonzeroHex, Bool.and_eq_true] at hnt hns
      exact h _ _ (fun _ => hexText_lower ht hnt.1) (.inr (hexText_lower hs hns.1))
    · exact hnew
  · exact hnew

/-- A request is served without being reported. -/
theorem serve_silent {r : Request} {id : String} {start : Int}
    (hmax : A.alone → 0 < srv.c.maxAttempts) (h : Blank event g) :
    (account srv A).wp (fun e g' => Answered A srv event e.event g' ∧ Later A g g' ∧ Silent g g')
      (serve srv r id start event) g := by
  have hserve : (account srv { A with silent := True }).wp
      (fun e g' => Answered { A with silent := True } srv event e.event g') (serve srv r id start event) g :=
    serve_spec hmax h
  have htracked := Monitor.wp_tracked (R := Silent) (fun _ => ⟨rfl, rfl⟩)
    (fun _ _ _ hab hbc => ⟨hbc.1.trans hab.1, hbc.2.trans hab.2⟩)
    (fun g o x ho _ => silent_next trivial g o x ho) hserve
  refine Monitor.wp_mono (Monitor.wp_tracked (Later.refl (A := A)) (fun _ _ _ => Later.trans)
    (fun g o x _ => later_next g o x) (relax_silent htracked)) ?_
  rintro e g' ⟨⟨hanswered, hquiet⟩, hlater⟩
  exact ⟨⟨hanswered.routed, hanswered.spoken, hanswered.used, hanswered.names, hanswered.tried⟩, hlater,
    hquiet⟩

/-- Every event is as its request was handled. -/
theorem chat_spec (srv : Server) (A : Assume) (hmax : A.alone → 0 < srv.c.maxAttempts)
    (hsilent : ¬ A.silent) (r : Request) :
    (account srv A).wp (Emitted A srv) (chat srv r) {} := by
  unfold chat
  rw [Monitor.wp_bind_iff, wp_now]
  intro start hstart
  rw [Monitor.wp_bind_iff, wp_randomID]
  intro id hid
  rw [Monitor.wp_bind_iff]
  refine traceIDs_spec (fun trace parent htrace hparent => ?_)
  dsimp only
  rw [Monitor.wp_bind_iff, wp_randomID]
  intro eventID hevent
  rw [Monitor.wp_bind_iff, wp_randomID]
  intro span hspan
  rw [Monitor.wp_bind_iff, wp_setHeader, Monitor.wp_bind_iff, wp_setHeader, Monitor.wp_bind_iff,
    wp_tell (by rfl), Monitor.wp_bind_iff]
  refine Monitor.wp_mono (serve_silent hmax
    ⟨rfl, rfl, rfl, rfl, rfl, rfl, rfl, rfl, rfl, trivial, rfl, rfl, rfl, rfl⟩) ?_
  rintro ended g' ⟨hanswered, hlater, hquiet⟩
  refine Monitor.wp_mono (epilogue_spec hsilent hanswered) ?_
  rintro event g'' ⟨hanswered', hemits, hmeasured, t, rfl, hlast, htime⟩
  have hcore := hanswered.core
  have hfields : ended.event.id = eventID ∧ ended.event.requestID = id ∧ ended.event.traceID = trace ∧
      ended.event.spanID = span ∧ ended.event.parentID = parent ∧ ended.event.start = start :=
    ⟨congrArg Event.id hcore, congrArg Event.requestID hcore, congrArg Event.traceID hcore,
      congrArg Event.spanID hcore, congrArg Event.parentID hcore, congrArg Event.start hcore⟩
  obtain ⟨h1, h2, h3, h4, h5, h6⟩ := hfields
  refine ⟨⟨_, hanswered'⟩, by rw [hemits, hquiet.1]; rfl, by rw [hmeasured, hquiet.2]; rfl, fun hx => ?_,
    fun hs => ?_⟩
  · dsimp only
    rw [h1, h2, h3, h4, h5]
    exact ⟨hevent hx, hid hx, htrace hx, hspan hx, hparent⟩
  · obtain ⟨t1, ht1, hle⟩ := hlater hs start rfl
    dsimp only
    rw [h6]
    exact ⟨(hstart hs).1, hle.trans (hlast hs t1 ht1), htime hs⟩

end

end Switchboard.Proofs.Tally
