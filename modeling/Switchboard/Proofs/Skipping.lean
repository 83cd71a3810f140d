import Switchboard.Proofs.Handling

namespace Switchboard.Proofs.Skipping
open Text Gateway Frame Turns Labels Handling
open Effect (Monitor Prog Machine Conf)
open Tally (label)
open NoReplay (plainConfig plainServer plainWorld plainRequest smooth busy)

/-- The loop came to the route at this index. -/
def came (laps : List Lap) (i : Nat) : Bool := laps.any (fun l => l.index == i)

/-- The routes from `i` on, by their indices, that the loop came to and passed over. -/
def passedFrom (routes : List (Route × Bool)) (laps : List Lap) (i : Nat) : List Nat :=
  (List.range' i (routes.length - i)).filter
    (fun j => routes[j]?.map Prod.snd == some true && came laps j)

/-- The routes that the loop passed over, in the order of the policy. -/
def passedOver (routes : List (Route × Bool)) (laps : List Lap) : List Nat :=
  passedFrom routes laps 0

/-- The routes at these indices, as an event names them. -/
def names (routes : List Route) (is : List Nat) : List String :=
  is.filterMap (fun i => routes[i]?.map label)

section
variable {routes : List (Route × Bool)} {laps : List Lap} {i : Nat}

theorem passedFrom_out (h : routes[i]? = none) : passedFrom routes laps i = [] := by
  have hlen : routes.length - i = 0 := Nat.sub_eq_zero_of_le (List.getElem?_eq_none_iff.mp h)
  simp [passedFrom, hlen]

theorem passedFrom_at {route : Route} {skip : Bool} (h : routes[i]? = some (route, skip)) :
    passedFrom routes laps i =
      (if skip && came laps i then [i] else []) ++ passedFrom routes laps (i + 1) := by
  obtain ⟨hlt, -⟩ := List.getElem?_eq_some_iff.mp h
  have hlen : routes.length - i = (routes.length - (i + 1)) + 1 := by omega
  rw [passedFrom, hlen, List.range'_succ, List.filter_cons]
  cases skip <;> cases came laps i <;> simp [h, passedFrom]

/-- A turn at an earlier index makes no difference. -/
theorem passedFrom_cons {l : Lap} (h : l.index < i) :
    passedFrom routes (l :: laps) i = passedFrom routes laps i := by
  refine List.filter_congr (fun j hj => ?_)
  have hj := (List.mem_range'_1.mp hj).1
  have hne : (l.index == j) = false := by
    rw [beq_eq_false_iff_ne]
    omega
  simp [came, hne]

theorem passedFrom_nil : passedFrom routes [] i = [] := by
  apply List.filter_eq_nil_iff.mpr
  intro j _
  simp [came]

end

/-- A turn at the index it is for. -/
theorem came_cons {l : Lap} {laps : List Lap} {i : Nat} (h : l.index = i) :
    came (l :: laps) i = true := by
  simp [came, h]

theorem skips_attempted {route : Route} {st : Loop} {flow : FlowOf Loop}
    {log : List (Effect.Event Op Ans)} (h : Attempted route st flow log) :
    (loopEvent flow).budgetSkipped = st.event.budgetSkipped ∧ risen .budgetSkip log = 0 := by
  cases h with
  | idle h => exact ⟨h.kept.skipped, risen_eq_zero (fun e he => rise_of_neutral (h.neutral e he))⟩
  | tried h => exact ⟨h.kept.skipped, h.uncounted⟩

/-- The turns of a run list what they pass over, and count it. -/
theorem laps_skips {k : Inference} {routes : List (Route × Bool)} {i : Nat} {retried : List Nat}
    {st : Loop} {laps : List Lap} {log : List (Effect.Event Op Ans)} {e : Ended}
    (hknown : ∀ x ∈ routes, x.2 = true → (k.srv.c.providers.lookup x.1.provider).isSome = true)
    (h : Laps k routes i retried st laps log e) :
    e.event.budgetSkipped = st.event.budgetSkipped ++
        names (routes.map Prod.fst) (passedFrom routes laps i) ∧
      risen .budgetSkip log = (passedFrom routes laps i).length := by
  have hexhausted : ∀ {st : Loop} {log : List (Effect.Event Op Ans)} {e : Ended},
      (exhausted k st).Run log (.ret e) →
      e.event.budgetSkipped = st.event.budgetSkipped ∧ risen .budgetSkip log = 0 := by
    intro st log e hrun
    obtain ⟨hkept, hneutral⟩ := ensures_exhausted log e hrun
    exact ⟨hkept.skipped, risen_eq_zero (fun e he => rise_of_neutral (hneutral e he))⟩
  induction h with
  | out h hrun =>
    rw [passedFrom_out h]
    simpa [names] using hexhausted hrun
  | @done i retried st log e route skip h hrun =>
    cases turn_cases _ _ log _ hrun with
    | unknown _ _ hflow => cases hflow
    | passed _ _ hflow => cases hflow
    | attempted hskip ha =>
      rw [passedFrom_at h, passedFrom_cons (Nat.lt_succ_self i), passedFrom_nil, hskip]
      simpa [names, loopEvent] using skips_attempted ha
  | @stop i retried st st' log log' e route skip h hrun hend =>
    cases turn_cases _ _ log _ hrun with
    | unknown _ _ hflow => cases hflow
    | passed _ _ hflow => cases hflow
    | attempted hskip ha =>
      obtain ⟨hlist, hcount⟩ := skips_attempted ha
      obtain ⟨hlist', hcount'⟩ := hexhausted hend
      rw [passedFrom_at h, passedFrom_cons (Nat.lt_succ_self i), passedFrom_nil, hskip, hlist',
        risen_append, hcount, hcount']
      simpa [names, loopEvent] using hlist
  | @next i retried st st' log log' e route skip laps h hrun rest ih =>
    obtain ⟨hlist', hcount'⟩ := ih
    rw [passedFrom_at h, passedFrom_cons (Nat.lt_succ_self i), came_cons rfl, Bool.and_true, hlist',
      risen_append, hcount']
    cases turn_cases _ _ log _ hrun with
    | unknown hnone hlog hflow =>
      have hskip : skip = false := by
        by_contra hskip
        have hsome := hknown (route, skip) (List.mem_of_getElem? h) (by simpa using hskip)
        simp [hnone] at hsome
      cases hflow
      simp [hlog, hskip]
    | passed hskip hlog hflow =>
      obtain rfl := FlowOf.next.inj hflow
      have hname : (routes.map Prod.fst)[i]? = some route := by simp [h]
      constructor
      · simp only [hskip, if_true, names, List.filterMap_append, List.filterMap_cons, hname,
          Option.map_some, List.filterMap_nil, List.append_assoc]
        rfl
      · simp [hskip, hlog, rise]
        omega
    | attempted hskip ha =>
      obtain ⟨hlist, hcount⟩ := skips_attempted ha
      have hlist : st'.event.budgetSkipped = st.event.budgetSkipped := hlist
      rw [hlist, hcount, hskip]
      simp
  | @again i retried st st' log log' e route skip laps h hrun rest ih =>
    obtain ⟨hlist', hcount'⟩ := ih
    cases turn_cases _ _ log _ hrun with
    | unknown _ _ hflow => cases hflow
    | passed _ _ hflow => cases hflow
    | attempted hskip ha =>
      obtain ⟨hlist, hcount⟩ := skips_attempted ha
      have hlist : st'.event.budgetSkipped = st.event.budgetSkipped := hlist
      rw [passedFrom_at h, hskip, Bool.false_and, if_neg Bool.false_ne_true, List.nil_append]
        at hlist' hcount'
      rw [passedFrom_at h, hskip, Bool.false_and, if_neg Bool.false_ne_true, List.nil_append,
        passedFrom_cons (Nat.lt_succ_self i), risen_append, hlist', hlist, hcount, hcount']
      simp

theorem due_eq (vs : List Verdict) : due vs = vs.map Verdict.passes ∨ due vs = vs.map (fun _ => false) := by
  unfold due skipped told
  split
  · exact .inr (by simp)
  · exact .inl rfl

/-- A route that is due to be passed over is one whose verdict says so. -/
theorem known_of_due {srv : Server} {routes : List Route} {vs : List Verdict}
    (h : Judged srv routes vs) : ∀ x ∈ routes.zip (due vs), x.2 = true →
      (srv.c.providers.lookup x.1.provider).isSome = true := by
  intro x hx hdue
  rcases due_eq vs with heq | heq
  · rw [heq, List.zip_map_right] at hx
    obtain ⟨y, hy, rfl⟩ := List.mem_map.mp hx
    exact h.known y hy hdue
  · rw [heq, List.zip_map_right] at hx
    obtain ⟨y, _, rfl⟩ := List.mem_map.mp hx
    cases hdue

theorem map_fst_zip_due {srv : Server} {routes : List Route} {vs : List Verdict}
    (h : Judged srv routes vs) : (routes.zip (due vs)).map Prod.fst = routes := by
  apply List.map_fst_zip
  rcases due_eq vs with heq | heq <;> simp [heq, h.length]

/-- What a routed request lists and counts is what its loop passed over. -/
theorem skips_of_course {srv : Server} {log : List (Effect.Event Op Ans)} {event : Event}
    {k : Inference} {p : Policy} {vs : List Verdict} {laps : List Lap}
    (c : Course srv log event k p vs laps) :
    event.budgetSkipped = names p.routes (passedOver (p.routes.zip (due vs)) laps) ∧
      risen .budgetSkip log = (passedOver (p.routes.zip (due vs)) laps).length := by
  obtain ⟨hjudged, hquiet⟩ := (judged_judge k p.routes).ensures c.judged vs c.judge
  obtain ⟨hlist, hcount⟩ := laps_skips (known_of_due hjudged) c.loop
  rw [map_fst_zip_due hjudged, c.fresh.skipped, List.nil_append] at hlist
  have hhushed : ∀ log : List (Effect.Event Op Ans), (∀ e ∈ log, Hushed e.op) →
      risen .budgetSkip log = 0 :=
    fun log h => risen_eq_zero (fun e he => rise_of_neutral (neutral_of_hushed (h e he)))
  refine ⟨c.event_eq.skipped.trans hlist, ?_⟩
  have hlog : log = c.before ++ ([⟨.currentPolicy, some p⟩] ++ (c.judged ++ (c.routed ++ c.after))) :=
    c.log_eq
  rw [hlog, risen_append, risen_append, risen_append, risen_append, hhushed _ c.before_hushed,
    hhushed _ hquiet, hhushed _ c.after_hushed, hhushed [_] (by simp), hcount]
  simp [passedOver]

/-- Every request lists and counts the routes that its loop passed over. Those are the routes with
a budget skip exactly when none of them was passed over for a fleet hint alone. -/
theorem budget_skips_iff {srv : Server} {r : Request} {log : List (Effect.Event Op Ans)}
    {event : Event} (h : (chat srv r).Run log (.ret event)) :
    ((∀ e ∈ log, Neutral e.op) ∧ event.budgetSkipped = [] ∧ risen .budgetSkip log = 0) ∨
      ∃ (k : Inference) (p : Policy) (vs : List Verdict) (laps : List Lap) (passed : List Nat),
        Nonempty (Course srv log event k p vs laps) ∧
        passed = passedOver (p.routes.zip (due vs)) laps ∧
        event.budgetSkipped = names p.routes passed ∧
        risen .budgetSkip log = passed.length ∧
        ((event.budgetSkipped = names p.routes (passed.filter (fun i => vs[i]? = some .budget)) ∧
            risen .budgetSkip log = (passed.filter (fun i => vs[i]? = some .budget)).length) ↔
          ∀ i ∈ passed, vs[i]? = some .budget) := by
  cases handled_of_run h with
  | aside hquiet hfresh =>
    exact .inl ⟨hquiet, hfresh.skipped, risen_eq_zero (fun e he => rise_of_neutral (hquiet e he))⟩
  | @routed k p vs laps c =>
    obtain ⟨hlist, hcount⟩ := skips_of_course c
    refine .inr ⟨k, p, vs, laps, _, ⟨c⟩, rfl, hlist, hcount, ?_, ?_⟩
    · intro ⟨_, hsame⟩ i hi
      have hlen := Int.ofNat_inj.mp (hsame.symm.trans hcount)
      exact of_decide_eq_true (List.length_filter_eq_length_iff.mp hlen i hi)
    · intro hall
      have hself := List.filter_eq_self.mpr (fun i hi => decide_eq_true (hall i hi))
      rw [hself]
      exact ⟨hlist, hcount⟩

/-- A gateway that the fleet has warned about the first provider, with no budget used up. -/
def hinted : World :=
  { plainWorld plainConfig with
    fleet := some (FleetHealth.apply 0 (AList.insert "openai" 100 ∅) fleetHintMax) }

/-- One request to that gateway. -/
def hintedOff : Conf Op Ans World Unit Event :=
  (driver (fun _ _ _ => true) plainServer).play (fun _ _ _ _ => true) (fun _ _ => true) 200
    [.go () (fun _ => false) (smooth busy)] (.start hinted (fun _ => chat plainServer (plainRequest "")))

theorem hintedOff_run {event : Event} (h : (hintedOff.prog ()).result = some event) :
    (chat plainServer (plainRequest "")).Run (hintedOff.log ()) (.ret event) := by
  have hr : (machine (fun _ _ _ => true) plainServer).Reaches Machine.anyMove
      (.start hinted (fun _ => chat plainServer (plainRequest ""))) hintedOff :=
    Effect.Driver.play_reaches (fun _ _ _ _ _ => trivial) (fun _ _ _ => trivial) _ _ _
  have hrun := Machine.run_of_reaches hr ()
  rwa [Prog.eq_ret_of_result h] at hrun

/-- A budget was found to be used up. -/
def overBudget : Effect.Event Op Ans → Bool
  | ⟨.ask (.budgetSkip _ _), found⟩ => found
  | _ => false

theorem hintedOff_listed :
    (hintedOff.prog ()).result.map Event.budgetSkipped = some ["openai:gpt"] ∧
      risen .budgetSkip (hintedOff.log ()) = 1 ∧ (hintedOff.log ()).any overBudget = false := by
  decide +kernel

/-- A route that is passed over for a fleet hint is reported as a budget skip, though no budget was
used up. -/
theorem hint_listed_as_budget_skip : ∃ event log,
    (chat plainServer (plainRequest "")).Run log (.ret event) ∧
      event.budgetSkipped = ["openai:gpt"] ∧ risen .budgetSkip log = 1 ∧
      log.any overBudget = false := by
  obtain ⟨hlisted, hcount, hunder⟩ := hintedOff_listed
  obtain ⟨event, hevent, hlisted⟩ := Option.map_eq_some_iff.mp hlisted
  exact ⟨event, _, hintedOff_run hevent, hlisted, hcount, hunder⟩

theorem hinted_skips_listed : ∃ event log,
    (chat plainServer (plainRequest "")).Run log (.ret event) ∧ event.budgetSkipped ≠ [] ∧
      ∃ (k : Inference) (p : Policy) (vs : List Verdict) (laps : List Lap),
        Nonempty (Course plainServer log event k p vs laps) ∧
        event.budgetSkipped = names p.routes (passedOver (p.routes.zip (due vs)) laps) := by
  obtain ⟨hlisted, -, -⟩ := hintedOff_listed
  obtain ⟨event, hevent, hlisted⟩ := Option.map_eq_some_iff.mp hlisted
  have hrun := hintedOff_run hevent
  refine ⟨event, _, hrun, by simp [hlisted], ?_⟩
  rcases budget_skips_iff hrun with ⟨-, hnone, -⟩ | ⟨k, p, vs, laps, _, hcourse, rfl, hnames, -⟩
  · simp [hlisted] at hnone
  · exact ⟨k, p, vs, laps, hcourse, hnames⟩

end Switchboard.Proofs.Skipping
