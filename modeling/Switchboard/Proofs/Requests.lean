import Switchboard.Proofs.Outline
import Switchboard.Proofs.Relay

namespace Switchboard.Proofs.Watch
open Text Gateway Entry Outline
open Effect (Monitor Prog)

section
variable {srv : Server} {known : String → Prop} {g : Ghost}

@[simp] theorem wp_map {f : α → β} {p : M α} {Q : β → Ghost → Prop} :
    (watch srv known).wp Q (f <$> p) g ↔ (watch srv known).wp (fun a g => Q (f a) g) p g := by
  simp [Prog.map_def]

@[simp] theorem wp_fail {event : Event} {settled : Bool} {status : Int} {msg : String}
    {Q : Ended → Ghost → Prop} :
    (watch srv known).wp Q (fail event settled status msg) g ↔
      Q { event := { event with status := status }, settled := settled }
        { g with wrote := true } := by
  simp [fail]

@[simp] theorem wp_observeBudget {k : Inference} {route : Route} {finish text : String}
    {Q : Unit → Ghost → Prop} :
    (watch srv known).wp Q (observeBudget k route finish text) g ↔ Q () g := by
  unfold observeBudget
  split
  · simp
  · simp

@[simp] theorem wp_emptyAnswer {k : Inference} {route : Route} {st : Loop} {reasoning : Int}
    {Q : Flow → Ghost → Prop} :
    (watch srv known).wp Q (emptyAnswer k route st reasoning) g ↔
      Q (.next { st with empties := st.empties ++
        [⟨route.provider, route.model, k.chat.maxTokens, reasoning⟩] }) g := by
  simp [emptyAnswer]

theorem watch_ignores_sign (u : Upstream) : (watch srv known).Ignored (.sign u) :=
  fun _ => ⟨trivial, fun _ => rfl⟩

theorem watch_ignores_preparing (o : Op) (h : Preparing o) : (watch srv known).Ignored o := by
  cases o with
  | ask a => exact fun _ => ⟨trivial, fun _ => rfl⟩
  | tell t => exact fun _ => ⟨trivial, fun _ => rfl⟩
  | setHeader name value => exact fun _ => ⟨trivial, fun _ => rfl⟩
  | _ => cases h

theorem wp_upstream {srv' : Server} {c : Chat} {route : Route} {pc : ProviderConfig}
    {Q : Option Upstream → Ghost → Prop} (hnone : Q none g)
    (hsome : ∀ u, u.route = route → u.sent = c → Q (some u) g) :
    (watch srv known).wp Q (upstream srv' c route pc) g := by
  refine (does_upstream watch_ignores_sign).wp_ignored (fun o ho => ?_)
  cases o with
  | none => exact hnone
  | some u => exact hsome u (ho u rfl).1 (ho u rfl).2

end

/-- The key of a request that is being dispatched is claimed, if it has one. -/
structure Claimed (k : Inference) (g : Ghost) : Prop where
  key : g.key = k.key
  opened : k.key ≠ "" → ∃ stored, g.claim = .opened stored k.body
  unkeyed : k.key = "" → g.claim = .none

/-- A request between two operations on the breakers, with nothing sent to its client. -/
structure Poised (k : Inference) (held : Option String) (g : Ghost) : Prop extends Claimed k g where
  held : g.held = held
  quiet : g.wrote = false

/-- Ready for the next route: whatever was sent before may be sent again. -/
structure Ready (k : Inference) (st : Loop) (g : Ghost) : Prop extends Poised k none g where
  sound : st.event.streamFailed = false
  replayable : ∀ l, g.last = some l → Replayable k.srv.lib l.1 l.2

/-- What an entry that was recorded says about the request it was recorded by. -/
def Recorded (lib : Lib) (event : Event) (last : Option (Upstream × Outcome)) (e : IdemEntry) :
    Prop :=
  e.state = .unknown ∨
    e.state = .done ∧ event.status = 200 ∧ event.streamFailed = false ∧
      ∃ u retryAfter contentType body, last = some (u, .response 200 retryAfter contentType body) ∧
        CompleteAnswer lib u contentType body

/-- A request that has been dispatched. Its key is still to be given back unless an
outcome was recorded for it. -/
structure Over (k : Inference) (event : Event) (settled : Bool) (g : Ghost) : Prop where
  key : g.key = k.key
  held : g.held = none
  unkeyed : k.key = "" → g.claim = .none
  recorded : k.key ≠ "" → settled = true →
    ∃ stored e, g.claim = .recorded stored k.body e ∧ Recorded k.srv.lib event g.last e
  kept : k.key ≠ "" → settled = false → (∃ stored, g.claim = .opened stored k.body) ∧
    ∀ l, g.last = some l → Releasable k.srv.lib l.1 l.2

def After (k : Inference) : Flow → Ghost → Prop
  | .next st, g => Ready k st g
  | .stop st, g => Ready k st g
  | .done e, g => Over k e.event e.settled g

section
variable {k : Inference} {known : String → Prop} {g : Ghost} {route : Route} {st : Loop}

theorem Poised.settle {p : String} (h : Poised k (some p) g) : Poised k none (g.settle p) :=
  ⟨⟨h.key, h.opened, h.unkeyed⟩, by simp [Ghost.settle, h.held], h.quiet⟩

theorem Poised.settle_again (h : Poised k none g) (p : String) : Poised k none (g.settle p) :=
  ⟨⟨h.key, h.opened, h.unkeyed⟩, by simp [Ghost.settle, h.held], h.quiet⟩

theorem Claimed.over {event : Event} (h : Claimed k g) (hheld : g.held = none)
    (hlast : ∀ l, g.last = some l → Releasable k.srv.lib l.1 l.2) : Over k event false g :=
  ⟨h.key, hheld, h.unkeyed, fun _ hs => absurd hs (by simp), fun hk _ => ⟨h.opened hk, hlast⟩⟩

theorem Over.wrote {event : Event} {settled : Bool} (h : Over k event settled g) :
    Over k event settled { g with wrote := true } :=
  ⟨h.key, h.held, h.unkeyed, h.recorded, h.kept⟩

theorem Ready.over {event : Event} (h : Ready k st g) : Over k event false g :=
  h.toClaimed.over h.held (fun l hl => (h.replayable l hl).releasable)

/-- An entry of the right shape is recorded for a key that is claimed. -/
theorem wp_record {e : IdemEntry} {Q : Unit → Ghost → Prop} (h : Claimed k g) (hk : k.key ≠ "")
    (he : Storable e) (hs : e.state = .unknown ∨ e.state = .done ∧ e.status = 200)
    (hb : e.bodyHash = IdemStore.hashBody k.srv.lib.sha256 k.body)
    (hlast : ∃ l, g.last = some l ∧ Undertaken l.2)
    (hq : ∀ stored, Q () { g with claim := .recorded stored k.body e }) :
    (watch k.srv known).wp Q (finishKey k.key e) g := by
  obtain ⟨stored, ho⟩ := h.opened hk
  refine wp_finishKey.mpr ⟨⟨h.key.symm, he, hs, stored, k.body, ho, hb, hlast⟩, ?_⟩
  simpa [Ghost.finished, ho] using hq stored

/-- The outcome of a request is recorded as unknown, if it has a key. -/
theorem settleUnknown_spec (event : Event) (h : Claimed k g) (hheld : g.held = none)
    (hlast : ∃ l, g.last = some l ∧ Undertaken l.2) :
    (watch k.srv known).wp (fun settled g' => Over k event settled g') (settleUnknown k) g := by
  unfold settleUnknown
  split
  · rename_i hk
    exact ⟨h.key, hheld, h.unkeyed, fun hk' => absurd hk hk', fun hk' => absurd hk hk'⟩
  · rename_i hk
    simp only [Monitor.wp_bind_iff, wp_now]
    intro t
    refine wp_record h hk (storable_plain (inInt64_wrap64 _) rfl rfl) (.inl rfl) rfl hlast ?_
    intro stored
    exact ⟨h.key, hheld, fun hk' => absurd hk' hk, fun _ _ => ⟨stored, _, rfl, .inl rfl⟩,
      fun _ hs => absurd hs (by simp)⟩

/-- The answer of a request is recorded, if it has a key. -/
theorem settleDone_spec {e : IdemEntry} (event : Event) (h : Claimed k g) (hheld : g.held = none)
    (hresponse : e.response = none ∨ ∃ id r n created, e.response = some (completion id r n created))
    (hstatus : event.status = 200) (hsound : event.streamFailed = false)
    (hlast : ∃ u retryAfter contentType body, CompleteAnswer k.srv.lib u contentType body ∧
      g.last = some (u, .response 200 retryAfter contentType body)) :
    (watch k.srv known).wp (fun settled g' => Over k event settled g') (settleDone k e) g := by
  unfold settleDone
  split
  · rename_i hk
    exact ⟨h.key, hheld, h.unkeyed, fun hk' => absurd hk hk', fun hk' => absurd hk hk'⟩
  · rename_i hk
    simp only [Monitor.wp_bind_iff, wp_now]
    intro t
    have hundertaken : ∃ l, g.last = some l ∧ Undertaken l.2 := by
      obtain ⟨u, retryAfter, contentType, body, -, hl⟩ := hlast
      exact ⟨_, hl, rfl⟩
    refine wp_record h hk ?_ (.inr ⟨rfl, rfl⟩) rfl hundertaken ?_
    · rcases hresponse with hr | ⟨id, r, n, created, hr⟩
      · exact storable_plain (inInt64_wrap64 _) rfl hr
      · exact storable_completion (inInt64_wrap64 _) rfl hr
    · intro stored
      obtain ⟨u, retryAfter, contentType, body, hcomplete, hl⟩ := hlast
      refine ⟨h.key, hheld, fun hk' => absurd hk' hk, fun _ _ => ⟨stored, _, rfl, .inr ?_⟩,
        fun _ hs => absurd hs (by simp)⟩
      exact ⟨rfl, hstatus, hsound, u, retryAfter, contentType, body, hl, hcomplete⟩

/-- A request that has got an outcome from the provider whose breaker let it in. -/
structure Got (k : Inference) (route : Route) (st : Loop) (u : Upstream) (o : Outcome) (g : Ghost) :
    Prop extends Poised k (some route.provider) g where
  sound : st.event.streamFailed = false
  last : g.last = some (u, o)
  route : u.route = route
  stream : u.sent.stream = k.chat.stream

variable {u : Upstream} {o : Outcome}

/-- The breaker has been told and the outcome may be tried elsewhere. -/
theorem Got.ready {st' : Loop} (h : Got k route st u o g) (ho : Replayable k.srv.lib u o)
    (hs : st'.event.streamFailed = false) : Ready k st' (g.settle route.provider) := by
  refine ⟨h.toPoised.settle, hs, fun l hl => ?_⟩
  have he : l = (u, o) := Option.some.inj (hl.symm.trans h.last)
  subst he
  exact ho

/-- The breaker has been told, whether or not the client has been written to. -/
theorem Got.settled {g' : Ghost} (h : Got k route st u o g) (hg : Wrote g g') :
    Claimed k (g'.settle route.provider) ∧ (g'.settle route.provider).held = none ∧
      (g'.settle route.provider).last = some (u, o) := by
  have hp := h.toPoised.settle
  rcases hg with rfl | rfl
  · exact ⟨hp.toClaimed, hp.held, h.last⟩
  · exact ⟨⟨hp.key, hp.opened, hp.unkeyed⟩, hp.held, h.last⟩

/-- A failed exchange: the outcome is recorded as unknown and the client is told. -/
theorem unknown_fail_spec {event : Event} {status : Int} {msg : String} (h : Claimed k g)
    (hheld : g.held = none) (hlast : ∃ l, g.last = some l ∧ Undertaken l.2) :
    (watch k.srv known).wp (After k)
      (settleUnknown k >>= fun settled => FlowOf.done <$> fail event settled status msg) g := by
  refine Monitor.wp_seq (settleUnknown_spec { event with status := status } h hheld hlast) ?_
  intro settled g' hover
  simpa [After] using hover.wrote

theorem acceptStream_spec {retryAfter contentType : String} {body : Body}
    (hk : known route.provider) (hs : k.chat.stream = true)
    (h : Got k route st u (.response 200 retryAfter contentType body) g) :
    (watch k.srv known).wp (After k) (acceptStream k route st contentType body) g := by
  have hstream : u.sent.stream = true := h.stream.trans hs
  refine Monitor.wp_seq (stream_spec k route contentType body) ?_
  intro r g' hr
  obtain ⟨out, stop⟩ := r
  obtain ⟨hclaimed, hheld, hlast⟩ := h.settled hr.ghost
  cases stop with
  | empty =>
    obtain ⟨hg, hempty⟩ := hr.empty rfl
    subst hg
    simp only [Monitor.wp_bind_iff, wp_settle, wp_emptyAnswer]
    refine ⟨hk, h.ready (.inr (.inr (.inr ⟨rfl, ?_⟩))) h.sound⟩
    simpa only [EmptyAnswer, hstream, h.route, if_true] using hempty
  | failed e =>
    simp only [Monitor.wp_bind_iff, wp_settle]
    exact ⟨hk, settleUnknown_spec _ hclaimed hheld ⟨_, hlast, rfl⟩⟩
  | complete =>
    simp only [Monitor.wp_bind_iff, wp_settle, wp_observeBudget, wp_tellIf]
    have hcomplete : CompleteAnswer k.srv.lib u contentType body := by
      simpa only [CompleteAnswer, hstream, h.route, if_true] using hr.complete rfl
    exact ⟨hk, settleDone_spec _ hclaimed hheld (.inl rfl) rfl h.sound
      ⟨u, retryAfter, contentType, body, hcomplete, hlast⟩⟩

theorem answer_spec {n : Normalized} {retryAfter contentType : String} {body : Body}
    (hc : Claimed k g) (hheld : g.held = none) (hsound : st.event.streamFailed = false)
    (hcomplete : CompleteAnswer k.srv.lib u contentType body)
    (hlast : g.last = some (u, .response 200 retryAfter contentType body)) :
    (watch k.srv known).wp (After k) (answer k route st n) g := by
  unfold answer
  simp only [Monitor.wp_bind_iff, wp_observeBudget, wp_tellIf]
  refine Monitor.wp_mono (settleDone_spec { st.event with status := 200 } hc hheld
    (.inr ⟨_, _, _, _, rfl⟩) rfl hsound ⟨u, retryAfter, contentType, body, hcomplete, hlast⟩) ?_
  intro settled g' hover
  simp only [wp_setHeader, wp_write]
  exact fun _ => hover.wrote

theorem acceptWhole_spec {retryAfter contentType : String} {body : Body}
    (hk : known route.provider) (hs : k.chat.stream = false)
    (h : Got k route st u (.response 200 retryAfter contentType body) g) :
    (watch k.srv known).wp (After k) (acceptWhole k route st body) g := by
  have hstream : u.sent.stream = false := h.stream.trans hs
  obtain ⟨hclaimed, hheld, hlast⟩ := h.settled (.inl rfl)
  unfold acceptWhole
  split
  · rw [Monitor.wp_bind_iff, wp_settle]
    exact ⟨hk, unknown_fail_spec hclaimed hheld ⟨_, hlast, rfl⟩⟩
  · rename_i data hdata
    dsimp only
    rw [Monitor.wp_bind_iff, wp_tellIf, Monitor.wp_bind_iff, wp_settle]
    refine ⟨hk, ?_⟩
    split
    · exact unknown_fail_spec hclaimed hheld ⟨_, hlast, rfl⟩
    · rename_i herr
      have hok : (normalize u.route.provider data false).err = none := by
        rw [h.route]
        simpa using herr
      split
      · rename_i hempty
        rw [wp_emptyAnswer]
        refine h.ready (.inr (.inr (.inr ⟨rfl, ?_⟩))) h.sound
        simp only [EmptyAnswer, hstream]
        rw [← h.route] at hempty
        exact ⟨data, hdata, hok, hempty⟩
      · refine answer_spec hclaimed hheld h.sound ?_ hlast
        simp only [CompleteAnswer, hstream]
        exact ⟨data, hdata, hok⟩

theorem accepted_spec {retryAfter contentType : String} {body : Body}
    (hk : known route.provider)
    (h : Got k route st u (.response 200 retryAfter contentType body) g) :
    (watch k.srv known).wp (After k) (accepted k route st contentType body) g := by
  unfold accepted
  rw [Monitor.wp_bind_iff, wp_tell, Monitor.wp_bind_iff, wp_setHeader, Monitor.wp_bind_iff,
    wp_setHeader]
  split
  · rename_i hs
    exact acceptStream_spec hk hs h
  · rename_i hs
    exact acceptWhole_spec hk (by simpa using hs) h

/-- A refusal that is passed on to the next route says that nothing was generated. -/
theorem replayable_of_classify {status : Int} {retryAfter contentType : String} {body : Body}
    (h : classify status (body.bytes.take 65536) ≠ .terminal) :
    Replayable k.srv.lib u (.response status retryAfter contentType body) := by
  unfold classify at h
  split at h
  · rename_i hs
    exact .inl (by simp [hs])
  split at h
  · rename_i hs
    exact .inl (by simp [hs])
  split at h
  · rename_i hs
    split at h
    · rename_i ha
      exact .inr (.inl ⟨by simpa [callersFault] using hs, ha⟩)
    · exact absurd rfl h
  split at h
  · rename_i hs
    exact .inl (by rcases hs with hs | hs | hs <;> simp [hs])
  · exact absurd rfl h

/-- The same route again, where that is possible, goes on from where the loop is. -/
def Continues (k : Inference) (known : String → Prop) : Option (Loop → M Flow) → Prop
  | none => True
  | some again => ∀ st g, Ready k st g → (watch k.srv known).wp (After k) (again st) g

variable {again : Option (Loop → M Flow)}

theorem leaveAlone_spec {delay : Int} (hk : known route.provider)
    (h : Ready k st (g.settle route.provider)) :
    (watch k.srv known).wp (After k) (rateLimited.leaveAlone route st delay) g := by
  unfold rateLimited.leaveAlone
  split
  · simpa only [Monitor.wp_bind_iff, wp_settle] using ⟨hk, h⟩
  · simpa only [Monitor.wp_bind_iff, wp_settle] using ⟨hk, h⟩

theorem rateLimited_spec {delay : Int} (hk : known route.provider) (hagain : Continues k known again)
    (h : Ready k st (g.settle route.provider)) :
    (watch k.srv known).wp (After k) (rateLimited k route again st delay) g := by
  unfold rateLimited
  rw [Monitor.wp_bind_iff, wp_tell]
  dsimp only
  cases again with
  | none => exact leaveAlone_spec hk h
  | some again =>
    dsimp only
    split
    · simp only [Monitor.wp_bind_iff, wp_settle, wp_tell, wp_ask]
      refine ⟨hk, fun passed => ?_⟩
      split
      · exact hagain st _ h
      · rw [wp_map, wp_fail]
        exact h.over.wrote
    · exact leaveAlone_spec hk h

theorem terminal_spec {status : Int} {errBody : Bytes} {retryAfter contentType : String}
    {body : Body} (hk : known route.provider) (hs : status ≠ 200)
    (h : Got k route st u (.response status retryAfter contentType body) g) :
    (watch k.srv known).wp (After k) (terminal route st status errBody) g := by
  obtain ⟨hclaimed, hheld, hlast⟩ := h.settled (.inl rfl)
  have hover : ∀ event, Over k event false (g.settle route.provider) := by
    intro event
    refine hclaimed.over hheld (fun l hl => ?_)
    rw [hlast] at hl
    cases hl
    exact .inl hs
  unfold terminal
  split
  · rw [Monitor.wp_bind_iff, wp_settle, wp_map, wp_fail]
    exact ⟨hk, (hover _).wrote⟩
  · rw [Monitor.wp_bind_iff, wp_settle, wp_map, wp_fail]
    exact ⟨hk, (hover _).wrote⟩

theorem refused_spec {status : Int} {retryAfter contentType : String} {body : Body}
    (hk : known route.provider) (hs : status ≠ 200) (hagain : Continues k known again)
    (h : Got k route st u (.response status retryAfter contentType body) g) :
    (watch k.srv known).wp (After k) (refused k route again st status retryAfter body) g := by
  unfold refused
  simp only [Monitor.wp_bind_iff, wp_now]
  intro t
  have hready : classify status (body.bytes.take 65536) ≠ .terminal → ∀ st' : Loop,
      st'.event.streamFailed = false → Ready k st' (g.settle route.provider) :=
    fun hc st' hst => h.ready (replayable_of_classify hc) hst
  cases hf : classify status (body.bytes.take 65536) with
  | account =>
    simp only [Monitor.wp_bind_iff, wp_tell, wp_settle]
    exact ⟨hk, hready (by simp [hf]) _ h.sound⟩
  | rateLimit => exact rateLimited_spec hk hagain (hready (by simp [hf]) _ h.sound)
  | degraded =>
    have hr := hready (by simp [hf]) { st with event := { st.event with fault := Fault.degraded.string } }
      h.sound
    simp only [Monitor.wp_bind_iff, wp_tell, wp_settle]
    refine ⟨hk, ?_⟩
    split
    · simp only [Monitor.wp_bind_iff, wp_settle]
      exact ⟨hk, hr.toPoised.settle_again route.provider, hr.sound, hr.replayable⟩
    · exact hr
  | refused =>
    simp only [Monitor.wp_bind_iff, wp_tell, wp_settle]
    exact ⟨hk, hready (by simp [hf]) _ h.sound⟩
  | terminal =>
    exact terminal_spec hk hs ⟨h.toPoised, h.sound, h.last, h.route, h.stream⟩

theorem conclude_spec (hk : known route.provider) (hagain : Continues k known again)
    (h : Got k route st u o g) :
    (watch k.srv known).wp (After k) (conclude k route again st o) g := by
  cases o with
  | failed =>
    obtain ⟨hclaimed, hheld, hlast⟩ := h.settled (.inl rfl)
    unfold conclude
    simp only [Monitor.wp_bind_iff, wp_ask]
    intro gone
    split
    · rw [Monitor.wp_bind_iff, wp_settle]
      exact ⟨hk, unknown_fail_spec hclaimed hheld ⟨_, hlast, trivial⟩⟩
    · rw [Monitor.wp_bind_iff, wp_settle]
      exact ⟨hk, unknown_fail_spec hclaimed hheld ⟨_, hlast, trivial⟩⟩
  | response status retryAfter contentType body =>
    rw [conclude]
    by_cases hs : status = 200
    · subst hs
      exact accepted_spec hk h
    · rw [if_pos hs]
      exact refused_spec hk hs hagain h

/-- A request that the breaker of this route has let in. -/
structure Entered (k : Inference) (route : Route) (st : Loop) (g : Ghost) : Prop
    extends Poised k (some route.provider) g where
  sound : st.event.streamFailed = false
  replayable : ∀ l, g.last = some l → Replayable k.srv.lib l.1 l.2

theorem Ready.enter (h : Ready k st g) :
    Entered k route st { g with held := some route.provider } :=
  ⟨⟨⟨h.key, h.opened, h.unkeyed⟩, rfl, h.quiet⟩, h.sound, h.replayable⟩

theorem Entered.leave (h : Entered k route st g) : Ready k st (g.settle route.provider) :=
  ⟨h.toPoised.settle, h.sound, h.replayable⟩

theorem Entered.may_send (h : Entered k route st g) :
    (watch k.srv known).ok g (.send u) := by
  refine .inr ⟨fun hk => ?_, h.quiet, h.replayable⟩
  obtain ⟨stored, ho⟩ := h.opened (h.key ▸ hk)
  exact ⟨stored, k.body, ho⟩

theorem Entered.got (h : Entered k route st g) (hr : u.route = route)
    (hs : u.sent.stream = k.chat.stream) : Got k route st u o { g with last := some (u, o) } :=
  ⟨⟨⟨h.key, h.opened, h.unkeyed⟩, h.held, h.quiet⟩, h.sound, rfl, hr, hs⟩

theorem replayable_of_temperature {c : Chat} (hu : u.sent = c) (h : refusesTemperature c o = true) :
    Replayable k.srv.lib u o := by
  cases o with
  | failed => cases h
  | response status retryAfter contentType body =>
    simp only [refusesTemperature, Bool.and_eq_true] at h
    refine .inr (.inr (.inl ⟨?_, h.2, hu ▸ h.1.2⟩))
    have hr := h.2
    unfold rejectsTemperature at hr
    split at hr
    · cases hr
    · rename_i hs
      simp only [callersFault, Bool.or_eq_true, beq_iff_eq]
      omega

theorem Got.entered (h : Got k route st u o g) (ho : Replayable k.srv.lib u o) :
    Entered k route st g := by
  refine ⟨h.toPoised, h.sound, fun l hl => ?_⟩
  have he : l = (u, o) := Option.some.inj (hl.symm.trans h.last)
  subst he
  exact ho

theorem adapterFailed_spec (hk : known route.provider) (h : Entered k route st g) :
    (watch k.srv known).wp (After k) (adapterFailed route st) g := by
  unfold adapterFailed
  rw [Monitor.wp_bind_iff, wp_settle, wp_map, wp_fail]
  exact ⟨hk, h.leave.over.wrote⟩

theorem exchange_spec {pc : ProviderConfig} {sent : Chat} (hk : known route.provider)
    (hagain : Continues k known again) (hs : sent.stream = k.chat.stream)
    (h : Entered k route st g) :
    (watch k.srv known).wp (After k) (exchange k route pc again st sent) g := by
  unfold exchange
  rw [Monitor.wp_bind_iff]
  refine wp_upstream (adapterFailed_spec hk h) ?_
  intro u hroute hsent
  dsimp only
  rw [Monitor.wp_bind_iff, wp_send]
  refine ⟨h.may_send, fun o => ?_⟩
  have hgot : Got k route st (withRequestID k.id u) o
      { g with last := some (withRequestID k.id u, o) } :=
    h.got hroute ((congrArg Chat.stream hsent).trans hs)
  split
  · rename_i ht
    have hentered := hgot.entered (replayable_of_temperature hsent ht)
    rw [Monitor.wp_bind_iff, wp_tell, Monitor.wp_bind_iff, wp_tell, Monitor.wp_bind_iff]
    refine wp_upstream (adapterFailed_spec hk hentered) ?_
    intro u' hroute' hsent'
    dsimp only
    rw [Monitor.wp_bind_iff, wp_send]
    refine ⟨hentered.may_send, fun o' => ?_⟩
    exact conclude_spec hk hagain
      (hentered.got hroute' ((congrArg Chat.stream hsent').trans hs))
  · exact conclude_spec hk hagain hgot

theorem pace_spec (hk : known route.provider) (h : Entered k route st g) :
    (watch k.srv known).wp (fun flow g' => (flow = none → g' = g) ∧ ∀ f, flow = some f → After k f g')
      (pace route st) g := by
  unfold pace
  split
  · simp
  · simp only [Monitor.wp_bind_iff, wp_ask]
    intro allowed
    split
    · simp only [Monitor.wp_bind_iff, wp_tell, wp_now, wp_ask]
      intro t passed
      split
      · simp
      · rw [Monitor.wp_bind_iff, wp_settle, wp_map, wp_fail]
        refine ⟨hk, by simp, fun f hf => ?_⟩
        cases hf
        exact h.leave.over.wrote
    · rw [Monitor.wp_bind_iff, wp_settle]
      refine ⟨hk, by simp, fun f hf => ?_⟩
      cases hf
      exact h.leave

theorem attempt_spec {pc : ProviderConfig} (hk : known route.provider)
    (hagain : Continues k known again) (h : Ready k st g) :
    (watch k.srv known).wp (After k) (attempt k route pc again st) g := by
  unfold attempt
  split
  · exact h
  split
  · exact h
  rw [Monitor.wp_bind_iff, wp_allow]
  refine ⟨⟨hk, h.held⟩, h, ?_⟩
  simp only [if_true]
  refine Monitor.wp_seq (pace_spec hk h.enter) ?_
  intro flow g' hflow
  cases flow with
  | some f => exact hflow.2 f rfl
  | none =>
    obtain rfl := hflow.1 rfl
    dsimp only
    rw [Monitor.wp_bind_iff]
    refine (does_prepare.relax watch_ignores_preparing).wp_ignored (fun sent hs => exchange_spec hk hagain hs ?_)
    exact ⟨h.enter.toPoised, h.sound, h.replayable⟩

theorem visit_spec {skip : Bool} (hk : known route.provider) (h : Ready k st g) :
    (watch k.srv known).wp (After k) (visit k route skip st) g := by
  unfold visit turn
  split
  · exact h
  · split
    · rw [Monitor.wp_bind_iff, wp_tell]
      exact ⟨h.toPoised, h.sound, h.replayable⟩
    · exact attempt_spec hk (fun st g hr => attempt_spec hk trivial hr) h

/-- The end of the loop. -/
theorem exhausted_spec (h : Ready k st g) :
    (watch k.srv known).wp (fun e g' => Over k e.event e.settled g') (exhausted k st) g := by
  unfold exhausted
  rw [Monitor.wp_bind_iff, wp_setHeader]
  split
  · rw [Monitor.wp_bind_iff, wp_tell, wp_fail]
    exact h.over.wrote
  · rw [wp_fail]
    exact h.over.wrote

theorem routeLoop_spec (routes : List (Route × Bool)) (hk : ∀ r ∈ routes, known r.1.provider)
    (st : Loop) (g : Ghost) (h : Ready k st g) :
    (watch k.srv known).wp (fun e g' => Over k e.event e.settled g') (routeLoop k routes st) g := by
  induction routes generalizing st g with
  | nil => exact exhausted_spec h
  | cons r routes ih =>
    obtain ⟨route, skip⟩ := r
    refine Monitor.wp_seq (visit_spec (hk _ List.mem_cons_self) h) ?_
    intro flow g' hflow
    cases flow with
    | next st' => exact ih (fun r hr => hk r (List.mem_cons_of_mem _ hr)) st' g' hflow
    | stop st' => exact exhausted_spec hflow
    | done e => exact hflow
    | again a => cases a

end

end Switchboard.Proofs.Watch
