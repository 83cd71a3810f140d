import Switchboard.Proofs.Handling

namespace Switchboard.Proofs.Naming
open Text Gateway Frame Turns Labels Handling
open Effect (Prog Machine Conf)
open NoReplay (plainConfig plainServer plainWorld plainRequest smooth)

/-- The provider accepted the request. -/
def accepted (l : Lap) : Bool := l.log.any isAccept

/-- The request was marked for caching. -/
def marked (l : Lap) : Bool := l.log.any isMark

/-- The last turn of which `p` holds. -/
def lastOf (p : Lap → Bool) (laps : List Lap) : Option Lap := laps.reverse.find? p

/-- The turn that produced the answer, unless no turn did. -/
def answering (laps : List Lap) : Option Lap := laps.getLast?.filter (fun l => isDone l.flow)

section
variable {p q : Lap → Bool} {l : Lap} {laps : List Lap}

theorem lastOf_cons :
    lastOf p (l :: laps) = (lastOf p laps).or (if p l then some l else none) := by
  rw [lastOf, List.reverse_cons, List.find?_append, List.find?_singleton]
  rfl

theorem lastOf_isSome : (lastOf p laps).isSome = laps.any p := by
  rw [lastOf, List.isSome_find?, List.any_reverse]

theorem mem_of_lastOf (h : lastOf p laps = some l) : l ∈ laps :=
  List.mem_reverse.mp (List.mem_of_find?_eq_some h)

theorem holds_of_lastOf (h : lastOf p laps = some l) : p l = true := List.find?_some h

/-- The last turn of one kind is the last of another kind, if it is of that kind too. -/
theorem lastOf_narrow (hqp : ∀ l ∈ laps, q l = true → p l = true) (h : lastOf p laps = some l)
    (hq : q l = true) : lastOf q laps = some l := by
  obtain ⟨-, newer, older, hsplit, hnewer⟩ := List.find?_eq_some_iff_append.mp h
  refine List.find?_eq_some_iff_append.mpr ⟨hq, newer, older, hsplit, fun a ha => ?_⟩
  have hmem : a ∈ laps := by
    apply List.mem_reverse.mp
    rw [hsplit]
    exact List.mem_append_left _ ha
  have hnot := hnewer a ha
  cases hqa : q a with
  | false => rfl
  | true => simp [hqp a hmem hqa] at hnot

end

theorem attemptsOf_eq (flow : FlowOf Loop) : attemptsOf flow = (loopEvent flow).attempts := by
  cases flow <;> rfl

/-- What a turn leaves on the response, and in the event. -/
structure Leaves (event : Event) (flow : FlowOf Loop) (log : List (Effect.Event Op Ans)) : Prop where
  labels : ∀ g : Slate, g.shown = none → ∀ name ∈ labelNames, (g.after log).pending name =
    stamp ⟨(loopEvent flow).provider, ""⟩ (loopEvent flow).attempts log g.pending name
  agrees : ∀ g : Slate, g.shown = none → (g.after log).Agrees
  unshown : isDone flow = false → ∀ g : Slate, g.shown = none → (g.after log).shown = none
  moved : (loopEvent flow).attempts = event.attempts + 1 ∨
    (loopEvent flow).attempts = event.attempts ∧ (loopEvent flow).provider = event.provider ∧
      log.any isAccept = false

theorem leaves_of_stamped {route : Route} {event event' : Event} {flow : FlowOf Loop}
    {log : List (Effect.Event Op Ans)} (h : Stamped route event'.attempts event' flow log)
    (hprovider : event'.provider = route.provider) (hattempts : event'.attempts = event.attempts + 1) :
    Leaves event flow log := by
  constructor
  · intro g hg name hname
    rw [h.labels g hg name hname, h.kept.provider, h.kept.attempts, hprovider]
    rfl
  · exact h.agrees
  · exact h.unshown
  · exact .inl (h.kept.attempts.trans hattempts)

theorem leaves_of_tidy {event : Event} {flow : FlowOf Loop} {log : List (Effect.Event Op Ans)}
    (h : Tidy event flow log) : Leaves event flow log := by
  have hstamped : Stamped ⟨(loopEvent flow).provider, ""⟩ (loopEvent flow).attempts event flow log :=
    h.stamped
  refine ⟨hstamped.labels, hstamped.agrees, hstamped.unshown, .inr ⟨h.kept.attempts, h.kept.provider, ?_⟩⟩
  exact List.any_eq_false.mpr (fun e he => by simp [isAccept_of_neutral (h.neutral e he)])

theorem leaves_of_turn {k : Inference} {route : Route} {skip : Bool} {st : Loop} {flow : FlowOf Loop}
    {log : List (Effect.Event Op Ans)} (h : Turn k route skip st flow log) :
    Leaves st.event flow log := by
  cases h with
  | unknown hnone hlog hflow =>
    subst hlog hflow
    exact leaves_of_tidy ⟨⟨rfl, rfl, rfl⟩, by simp, by simp⟩
  | passed hskip hlog hflow =>
    subst hlog hflow
    constructor
    · intro g _ name _
      simp [stamp, isAccept, isMark, Slate.note]
    · exact fun g hg => agrees_of_unshown hg
    · exact fun _ g hg => hg
    · exact .inr ⟨rfl, rfl, rfl⟩
  | attempted hskip h =>
    cases h with
    | idle h => exact leaves_of_tidy h
    | tried h =>
      have h : Stamped route (st.attempting route).event.attempts (st.attempting route).event flow log := h
      exact leaves_of_stamped h rfl rfl

/-- What the turns of a run leave on the response, and in the event. -/
structure Labelled (g : Slate) (event : Event) (laps : List Lap) (g' : Slate) (event' : Event) :
    Prop where
  agrees : g'.Agrees
  provider : g'.pending "X-Switchboard-Provider" = (lastOf accepted laps).elim
    (g.pending "X-Switchboard-Provider") (fun l => some (loopEvent l.flow).provider)
  attempts : g'.pending "X-Switchboard-Attempts" = (lastOf accepted laps).elim
    (g.pending "X-Switchboard-Attempts") (fun l => some (Strings.itoa (loopEvent l.flow).attempts))
  cached : g'.pending "X-Switchboard-Prompt-Cache" =
    if laps.any marked then some "system" else g.pending "X-Switchboard-Prompt-Cache"
  named : event'.provider =
    (lastOf Lap.attempted laps).elim event.provider (fun l => (loopEvent l.flow).provider)
  counted : event'.attempts =
    (lastOf Lap.attempted laps).elim event.attempts (fun l => (loopEvent l.flow).attempts)
  tried : ∀ l ∈ laps, accepted l = true → l.attempted = true
  risen : ∀ l ∈ laps, l.attempted = true → event.attempts < (loopEvent l.flow).attempts
  /-- The last accepted attempt is the last attempt, or an earlier one by its number. -/
  earlier : ∀ a b, lastOf accepted laps = some a → lastOf Lap.attempted laps = some b →
    a = b ∨ (loopEvent a.flow).attempts < (loopEvent b.flow).attempts

section
variable {g g' : Slate} {event event' : Event}

theorem labelled_nil (hsame : Same g g') (hagrees : g'.Agrees)
    (hkept : event'.provider = event.provider ∧ event'.attempts = event.attempts) :
    Labelled g event [] g' event' := by
  constructor
  · exact hagrees
  · exact hsame _ (by simp [labelNames])
  · exact hsame _ (by simp [labelNames])
  · exact hsame _ (by simp [labelNames])
  · exact hkept.1
  · exact hkept.2
  · simp
  · simp
  · simp [lastOf]

theorem labelled_cons {i : Nat} {st : Loop} {flow : FlowOf Loop} {log : List (Effect.Event Op Ans)}
    {laps : List Lap} (hl : Leaves st.event flow log) (hg : g.shown = none)
    (h : Labelled (g.after log) (loopEvent flow) laps g' event') :
    Labelled g st.event (⟨i, st, log, flow⟩ :: laps) g' event' := by
  have hattempted : (Lap.mk i st log flow).attempted =
      decide ((loopEvent flow).attempts = st.event.attempts + 1) := by
    rw [Lap.attempted, attemptsOf_eq]
  have hidle : (Lap.mk i st log flow).attempted = false →
      (loopEvent flow).attempts = st.event.attempts ∧ (loopEvent flow).provider = st.event.provider ∧
        log.any isAccept = false := by
    intro hf
    rw [hattempted] at hf
    exact hl.moved.resolve_left (of_decide_eq_false hf)
  have hup : st.event.attempts ≤ (loopEvent flow).attempts := by
    rcases hl.moved with hmoved | hmoved <;> omega
  have htried : accepted ⟨i, st, log, flow⟩ = true → (Lap.mk i st log flow).attempted = true := by
    intro ha
    by_contra hf
    have hnone : log.any isAccept = false := (hidle (by simpa using hf)).2.2
    rw [accepted, hnone] at ha
    cases ha
  constructor
  · exact h.agrees
  · rw [h.provider, hl.labels g hg _ (by simp [labelNames]), lastOf_cons]
    cases lastOf accepted laps with
    | some l => rfl
    | none => cases ha : accepted ⟨i, st, log, flow⟩ <;> simp_all [accepted, stamp]
  · rw [h.attempts, hl.labels g hg _ (by simp [labelNames]), lastOf_cons]
    cases lastOf accepted laps with
    | some l => rfl
    | none => cases ha : accepted ⟨i, st, log, flow⟩ <;> simp_all [accepted, stamp]
  · rw [h.cached, hl.labels g hg _ (by simp [labelNames]), List.any_cons]
    cases laps.any marked with
    | true => simp
    | false => cases hm : marked ⟨i, st, log, flow⟩ <;> simp_all [marked, stamp]
  · rw [h.named, lastOf_cons]
    cases lastOf Lap.attempted laps with
    | some l => rfl
    | none =>
      cases ha : (Lap.mk i st log flow).attempted with
      | true => rfl
      | false => exact (hidle ha).2.1
  · rw [h.counted, lastOf_cons]
    cases lastOf Lap.attempted laps with
    | some l => rfl
    | none =>
      cases ha : (Lap.mk i st log flow).attempted with
      | true => rfl
      | false => exact (hidle ha).1
  · exact List.forall_mem_cons.mpr ⟨htried, h.tried⟩
  · refine List.forall_mem_cons.mpr ⟨fun ha => ?_, fun l hmem ha => ?_⟩
    · rw [hattempted, decide_eq_true_eq] at ha
      exact ha ▸ Int.lt_succ _
    · exact Int.lt_of_le_of_lt hup (h.risen l hmem ha)
  · intro a b ha hb
    rw [lastOf_cons] at ha hb
    cases hla : lastOf accepted laps with
    | some a' =>
      have hsome : (lastOf Lap.attempted laps).isSome = true := by
        rw [lastOf_isSome, List.any_eq_true]
        exact ⟨a', mem_of_lastOf hla, h.tried a' (mem_of_lastOf hla) (holds_of_lastOf hla)⟩
      obtain ⟨b', hlb⟩ := Option.isSome_iff_exists.mp hsome
      rw [hla] at ha
      rw [hlb] at hb
      obtain rfl := Option.some.inj ha
      obtain rfl := Option.some.inj hb
      exact h.earlier _ _ hla hlb
    | none =>
      rw [hla, Option.none_or] at ha
      obtain rfl := Option.some.inj (Option.ite_none_right_eq_some.mp ha).2
      cases hlb : lastOf Lap.attempted laps with
      | some b' =>
        rw [hlb] at hb
        obtain rfl := Option.some.inj hb
        exact .inr (h.risen _ (mem_of_lastOf hlb) (holds_of_lastOf hlb))
      | none =>
        rw [hlb, Option.none_or] at hb
        obtain rfl := Option.some.inj (Option.ite_none_right_eq_some.mp hb).2
        exact .inl rfl

end

theorem labelled_exhausted {k : Inference} {st : Loop} {log : List (Effect.Event Op Ans)} {e : Ended}
    {g : Slate} (h : (exhausted k st).Run log (.ret e)) (hg : g.shown = none) :
    Labelled g st.event [] (g.after log) e.event := by
  obtain ⟨hkept, hneutral⟩ := ensures_exhausted log e h
  obtain ⟨hsame, hagrees⟩ := neutral_after hneutral (agrees_of_unshown hg)
  exact labelled_nil hsame hagrees ⟨hkept.provider, hkept.attempts⟩

theorem laps_labelled {k : Inference} {routes : List (Route × Bool)} {i : Nat} {retried : List Nat}
    {st : Loop} {laps : List Lap} {log : List (Effect.Event Op Ans)} {e : Ended}
    (h : Laps k routes i retried st laps log e) {g : Slate} (hg : g.shown = none) :
    Labelled g st.event laps (g.after log) e.event := by
  induction h generalizing g with
  | out h hrun => exact labelled_exhausted hrun hg
  | done h hrun =>
    have hl := leaves_of_turn (turn_cases _ _ _ _ hrun)
    exact labelled_cons hl hg (labelled_nil (fun _ _ => rfl) (hl.agrees g hg) ⟨rfl, rfl⟩)
  | stop h hrun hend =>
    have hl := leaves_of_turn (turn_cases _ _ _ _ hrun)
    rw [after_append]
    exact labelled_cons hl hg (labelled_exhausted hend (hl.unshown rfl g hg))
  | next h hrun rest ih =>
    have hl := leaves_of_turn (turn_cases _ _ _ _ hrun)
    rw [after_append]
    exact labelled_cons hl hg (ih (hl.unshown rfl g hg))
  | again h hrun rest ih =>
    have hl := leaves_of_turn (turn_cases _ _ _ _ hrun)
    rw [after_append]
    exact labelled_cons hl hg (ih (hl.unshown rfl g hg))

/-- The response names the provider and the number of attempts of the event, if it names any. -/
structure Matches (received : String → Option String) (event : Event) : Prop where
  provider : ∀ v, received "X-Switchboard-Provider" = some v → v = event.provider
  attempts : ∀ v, received "X-Switchboard-Attempts" = some v → v = Strings.itoa event.attempts

/-- Nothing of note before and after makes no difference. -/
theorem Labelled.widen {g g' : Slate} {event event' event'' : Event} {laps : List Lap}
    {pre post : List (Effect.Event Op Ans)}
    (h : Labelled (g.after pre) event laps g' event') (hpre : ∀ e ∈ pre, Hushed e.op)
    (hpost : ∀ e ∈ post, Hushed e.op) (hkept : Kept event' (.done { event := event'' })) :
    Labelled g event laps (g'.after post) event'' := by
  have hin : Same g (g.after pre) := (hushed_after hpre).1
  obtain ⟨hout, hagrees⟩ := neutral_after (fun e he => neutral_of_hushed (hpost e he)) h.agrees
  have hnames : "X-Switchboard-Provider" ∈ labelNames ∧ "X-Switchboard-Attempts" ∈ labelNames ∧
      "X-Switchboard-Prompt-Cache" ∈ labelNames := by simp [labelNames]
  obtain ⟨hprovider, hattempts, hcached⟩ := hnames
  constructor
  · exact hagrees
  · rw [hout _ hprovider, h.provider, hin _ hprovider]
  · rw [hout _ hattempts, h.attempts, hin _ hattempts]
  · rw [hout _ hcached, h.cached, hin _ hcached]
  · exact hkept.provider.trans h.named
  · exact hkept.attempts.trans h.counted
  · exact h.tried
  · exact h.risen
  · exact h.earlier

/-- The headers that the client has got with the response. -/
def responseHeaders (log : List (Effect.Event Op Ans)) : String → Option String :=
  (Slate.after {} log).received

theorem labelled_of_course {srv : Server} {log : List (Effect.Event Op Ans)} {event : Event}
    {k : Inference} {p : Policy} {vs : List Verdict} {laps : List Lap}
    (c : Course srv log event k p vs laps) : Labelled {} c.base laps (Slate.after {} log) event := by
  have hpre : ∀ e ∈ c.before ++ (⟨.currentPolicy, some p⟩ :: c.judged), Hushed e.op := by
    intro e he
    simp only [List.mem_append, List.mem_cons] at he
    rcases he with he | rfl | he
    · exact c.before_hushed e he
    · trivial
    · exact ((judged_judge k p.routes).ensures c.judged vs c.judge).2 e he
  have hlog : log = ((c.before ++ (⟨.currentPolicy, some p⟩ :: c.judged)) ++ c.routed) ++ c.after :=
    c.log_eq.trans (by simp)
  have hlaps := laps_labelled c.loop (hushed_after (g := {}) hpre).2
  have hafter := congrArg (Slate.after {}) hlog
  rw [after_append, after_append] at hafter
  rw [hafter]
  exact hlaps.widen hpre c.after_hushed c.event_eq

section
variable {g : Slate} {event event' : Event} {laps : List Lap}

/-- The response matches the event exactly when the last attempt was accepted, or none was. -/
theorem Labelled.matches_iff (h : Labelled {} event laps g event') :
    Matches g.received event' ↔
      (laps.any accepted = true → ∃ l, lastOf Lap.attempted laps = some l ∧ accepted l = true) := by
  have hprovider : g.received "X-Switchboard-Provider" = _ :=
    (h.agrees.received _ (by simp [labelNames])).trans h.provider
  have hattempts : g.received "X-Switchboard-Attempts" = _ :=
    (h.agrees.received _ (by simp [labelNames])).trans h.attempts
  constructor
  · intro hm hany
    rw [← lastOf_isSome] at hany
    obtain ⟨a, ha⟩ := Option.isSome_iff_exists.mp hany
    have hacc := holds_of_lastOf ha
    have hsome : (lastOf Lap.attempted laps).isSome = true := by
      rw [lastOf_isSome, List.any_eq_true]
      exact ⟨a, mem_of_lastOf ha, h.tried a (mem_of_lastOf ha) hacc⟩
    obtain ⟨b, hb⟩ := Option.isSome_iff_exists.mp hsome
    rcases h.earlier a b ha hb with rfl | hlt
    · exact ⟨a, hb, hacc⟩
    · rw [ha] at hattempts
      have hcount := Strings.itoa_injective (hm.attempts _ hattempts)
      rw [h.counted, hb] at hcount
      exact absurd hcount (Int.ne_of_lt hlt)
  · intro hlast
    cases hany : laps.any accepted with
    | false =>
      rw [← lastOf_isSome, Option.isSome_eq_false_iff, Option.isNone_iff_eq_none] at hany
      rw [hany] at hprovider hattempts
      exact ⟨fun v hv => (by cases hprovider.symm.trans hv), fun v hv => (by cases hattempts.symm.trans hv)⟩
    | true =>
      obtain ⟨b, hb, hacc⟩ := hlast hany
      have hsame := lastOf_narrow h.tried hb hacc
      rw [hsame] at hprovider hattempts
      constructor
      · intro v hv
        rw [h.named, hb]
        exact (Option.some.inj (hprovider.symm.trans hv)).symm
      · intro v hv
        rw [h.counted, hb]
        exact (Option.some.inj (hattempts.symm.trans hv)).symm

theorem Labelled.named_isSome (h : Labelled {} event laps g event') :
    (g.received "X-Switchboard-Provider").isSome = laps.any accepted := by
  rw [h.agrees.received _ (by simp [labelNames]), h.provider, ← lastOf_isSome]
  cases lastOf accepted laps <;> rfl

theorem Labelled.cached_isSome (h : Labelled {} event laps g event') :
    (g.received "X-Switchboard-Prompt-Cache").isSome = laps.any marked := by
  rw [h.agrees.received _ (by simp [labelNames]), h.cached]
  cases laps.any marked <;> rfl

end

/-- No label of an abandoned attempt survives: each one there is was set by the attempt that
produced the answer. -/
structure Owned (received : String → Option String) (laps : List Lap) : Prop where
  provider : (received "X-Switchboard-Provider").isSome = true →
    ∃ l, answering laps = some l ∧ accepted l = true
  cached : (received "X-Switchboard-Prompt-Cache").isSome = true →
    ∃ l, answering laps = some l ∧ marked l = true

/-- The labels of every response match the event exactly when the last attempt was accepted or none
was, and are the answer's own exactly when the attempt that produced it was accepted, and marked,
if any was. -/
theorem labels_match_iff {srv : Server} {r : Request} {log : List (Effect.Event Op Ans)}
    {event : Event} (h : (chat srv r).Run log (.ret event)) :
    (∀ name ∈ labelNames, responseHeaders log name = none) ∨
      ∃ (k : Inference) (p : Policy) (vs : List Verdict) (laps : List Lap),
        Nonempty (Course srv log event k p vs laps) ∧
        (Matches (responseHeaders log) event ↔
          (laps.any accepted = true → ∃ l, lastOf Lap.attempted laps = some l ∧ accepted l = true)) ∧
        (Owned (responseHeaders log) laps ↔
          (laps.any accepted = true → ∃ l, answering laps = some l ∧ accepted l = true) ∧
            (laps.any marked = true → ∃ l, answering laps = some l ∧ marked l = true)) := by
  cases handled_of_run h with
  | aside hquiet hfresh =>
    obtain ⟨hsame, hagrees⟩ := neutral_after hquiet (agrees_of_unshown (g := {}) rfl)
    refine .inl (fun name hname => ?_)
    exact (hagrees.received name hname).trans (hsame name hname)
  | @routed k p vs laps c =>
    have hlabelled := labelled_of_course c
    refine .inr ⟨k, p, vs, laps, ⟨c⟩, hlabelled.matches_iff, fun ho => ⟨?_, ?_⟩, fun hc => ⟨?_, ?_⟩⟩
    · exact fun hany => ho.provider (hlabelled.named_isSome.trans hany)
    · exact fun hany => ho.cached (hlabelled.cached_isSome.trans hany)
    · exact fun hsome => hc.1 (hlabelled.named_isSome.symm.trans hsome)
    · exact fun hsome => hc.2 (hlabelled.cached_isSome.symm.trans hsome)

/-- An answer without text, cut short by its length. -/
def emptied : Outcome :=
  .response 200 "" "application/json" ⟨ascii ("\x7b\"choices\":[\x7b\"index\":0,\"message\":" ++
    "\x7b\"content\":\"\"\x7d,\"finish_reason\":\"length\"\x7d]\x7d"), false⟩

/-- OpenAI's answer is empty, and Gemini finds the request bad. -/
def emptiedThenBad : Op → Chance
  | .send u => .outcome (if u.route.provider = "openai" then emptied else .response 400 "" "" ⟨[], false⟩)
  | o => smooth emptied o

def misnamed : Conf Op Ans World Unit Event :=
  (driver (fun _ _ _ => true) plainServer).play (fun _ _ _ _ => true) (fun _ _ => true) 200
    [.go () (fun _ => false) emptiedThenBad]
    (.start (plainWorld plainConfig) (fun _ => chat plainServer (plainRequest "")))

theorem misnamed_run {event : Event} (h : (misnamed.prog ()).result = some event) :
    (chat plainServer (plainRequest "")).Run (misnamed.log ()) (.ret event) := by
  have hr : (machine (fun _ _ _ => true) plainServer).Reaches Machine.anyMove
      (.start (plainWorld plainConfig) (fun _ => chat plainServer (plainRequest ""))) misnamed :=
    Effect.Driver.play_reaches (fun _ _ _ _ _ => trivial) (fun _ _ _ => trivial) _ _ _
  have hrun := Machine.run_of_reaches hr ()
  rwa [Prog.eq_ret_of_result h] at hrun

theorem misnamed_labels :
    (misnamed.prog ()).result.map (fun e => (e.provider, e.attempts)) = some ("gemini", 2) ∧
      responseHeaders (misnamed.log ()) "X-Switchboard-Provider" = some "openai" ∧
      responseHeaders (misnamed.log ()) "X-Switchboard-Attempts" = some "1" := by
  decide +kernel

/-- A response that names the provider whose answer was empty, though the answer is that of the
next one, which the event names. -/
theorem response_names_abandoned_provider : ∃ event log,
    (chat plainServer (plainRequest "")).Run log (.ret event) ∧
      event.provider = "gemini" ∧ event.attempts = 2 ∧
      responseHeaders log "X-Switchboard-Provider" = some "openai" ∧
      responseHeaders log "X-Switchboard-Attempts" = some "1" := by
  obtain ⟨hevent, hlabels⟩ := misnamed_labels
  obtain ⟨event, hresult, hevent⟩ := Option.map_eq_some_iff.mp hevent
  obtain ⟨hprovider, hattempts⟩ := Prod.mk.inj hevent
  exact ⟨event, _, misnamed_run hresult, hprovider, hattempts, hlabels⟩

theorem misnamed_not_owned : ∃ event log,
    (chat plainServer (plainRequest "")).Run log (.ret event) ∧
      ∃ (k : Inference) (p : Policy) (vs : List Verdict) (laps : List Lap),
        Nonempty (Course plainServer log event k p vs laps) ∧
        ¬ (laps.any accepted = true →
          ∃ l, lastOf Lap.attempted laps = some l ∧ accepted l = true) := by
  obtain ⟨hevent, hprovider, -⟩ := misnamed_labels
  obtain ⟨event, hresult, hevent⟩ := Option.map_eq_some_iff.mp hevent
  refine ⟨event, _, misnamed_run hresult, ?_⟩
  rcases labels_match_iff (misnamed_run hresult) with hnone | ⟨k, p, vs, laps, hcourse, hmatches, -⟩
  · have habsent := hnone "X-Switchboard-Provider" (by simp [labelNames])
    rw [hprovider] at habsent
    cases habsent
  · refine ⟨k, p, vs, laps, hcourse, fun hlast => ?_⟩
    have hsame := (hmatches.mpr hlast).provider _ hprovider
    rw [(Prod.mk.inj hevent).1] at hsame
    exact absurd hsame (by decide)

end Switchboard.Proofs.Naming
