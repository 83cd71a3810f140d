import Switchboard.Gateway.Circuit

namespace Switchboard.Proofs.Window
open Gateway

/-- A call on a circuit. -/
inductive Call where
  | allow
  | settle (s : Settlement)
deriving DecidableEq, Repr

def call (c : Circuit) (now : Int) : Call → Circuit
  | .allow => (c.allow now).2
  | .settle s => s.apply c now

/-- The circuit after calls at the times they are made. -/
def after (c : Circuit) : List (Int × Call) → Circuit
  | [] => c
  | l :: ls => after (call c l.1 l.2) ls

theorem after_append (c : Circuit) (xs ys : List (Int × Call)) :
    after c (xs ++ ys) = after (after c xs) ys := by
  induction xs generalizing c with
  | nil => rfl
  | cons x xs ih => exact ih _

/-- An outcome, with the probe flag that it found. -/
structure Report where
  probe : Bool
  failed : Bool
deriving DecidableEq, Repr

def reported (c : Circuit) : Call → List Report
  | .settle (.result failed) => [⟨c.probe, failed⟩]
  | _ => []

/-- The outcomes passed to `result`, in order. -/
def reports (c : Circuit) : List (Int × Call) → List Report
  | [] => []
  | l :: ls => reported c l.2 ++ reports (call c l.1 l.2) ls

/-- Of outcomes with the newest first, those since the last success that found the flag
set. -/
def history (rs : List Report) : List Bool :=
  (rs.takeWhile (fun r => r.failed || !r.probe)).map Report.failed

/-- What the fields of a circuit say about its outcomes, the newest first. -/
structure Means (c : Circuit) (rs : List Report) : Prop where
  failures : c.failures = (rs.takeWhile Report.failed).length
  seen : c.seen = min (history rs).length 20
  recent : ∀ i < c.seen, (history rs)[i]? = some (c.recent.getLsbD i)

theorem Means.fresh : Means {} [] := by
  refine ⟨rfl, rfl, ?_⟩
  intro i hi
  exact absurd hi (Nat.not_lt_zero i)

theorem Means.same {c c' : Circuit} {rs : List Report} (h : Means c rs)
    (hf : c'.failures = c.failures) (hs : c'.seen = c.seen) (hr : c'.recent = c.recent) :
    Means c' rs := by
  refine ⟨hf.trans h.failures, hs.trans h.seen, ?_⟩
  intro i hi
  rw [hr]
  apply h.recent
  rwa [hs] at hi

theorem history_cons {r : Report} {rs : List Report} (h : r.failed = true ∨ r.probe = false) :
    history (r :: rs) = r.failed :: history rs := by
  have hkeep : (r.failed || !r.probe) = true := by
    rcases h with h | h <;> simp [h]
  simp [history, hkeep]

theorem bumpSeen_eq {c : Circuit} {n : Nat} (h : c.seen = min n 20) : c.bumpSeen = min (n + 1) 20 := by
  unfold Circuit.bumpSeen flapWindow
  split <;> omega

/-- The register after an outcome has been shifted in. -/
def shifted (recent : BitVec 32) (failed : Bool) : BitVec 32 :=
  if failed then recent <<< 1 ||| 1 else recent <<< 1

theorem shifted_zero (recent : BitVec 32) (failed : Bool) :
    (shifted recent failed).getLsbD 0 = failed := by
  cases failed with
  | true => simp [shifted]
  | false => simp [shifted]

theorem shifted_succ (recent : BitVec 32) (failed : Bool) {i : Nat} (hi : i < 31) :
    (shifted recent failed).getLsbD (i + 1) = recent.getLsbD i := by
  have hlt : i + 1 < 32 := by omega
  have hbit : recent.getLsbD i = recent[i] := BitVec.getLsbD_eq_getElem (by omega)
  cases failed with
  | true => simp [shifted, hlt, hbit]
  | false => simp [shifted, hlt, hbit]

/-- An outcome that goes into the window. -/
theorem Means.shift {c c' : Circuit} {rs : List Report} {r : Report} (h : Means c rs)
    (hkeep : r.failed = true ∨ r.probe = false)
    (hf : c'.failures = if r.failed then c.failures + 1 else 0)
    (hs : c'.seen = c.bumpSeen) (hr : c'.recent = shifted c.recent r.failed) :
    Means c' (r :: rs) := by
  have hseen : c'.seen = min ((history rs).length + 1) 20 := hs.trans (bumpSeen_eq h.seen)
  refine ⟨?_, ?_, ?_⟩
  · rw [hf, h.failures, List.takeWhile_cons]
    cases r.failed with
    | true => rfl
    | false => rfl
  · rw [hseen, history_cons hkeep, List.length_cons]
  · intro i hi
    rw [history_cons hkeep, hr]
    cases i with
    | zero => rw [shifted_zero, List.getElem?_cons_zero]
    | succ i =>
      have hold : i < c.seen := by
        rw [h.seen]
        omega
      rw [shifted_succ _ _ (by omega), List.getElem?_cons_succ]
      exact h.recent i hold

/-- A success that finds the flag set starts the window anew. -/
theorem Means.restart {c' : Circuit} {rs : List Report} (hf : c'.failures = 0) (hs : c'.seen = 0) :
    Means c' (⟨true, false⟩ :: rs) := by
  refine ⟨hf, hs, ?_⟩
  intro i hi
  rw [hs] at hi
  exact absurd hi (Nat.not_lt_zero i)

theorem Means.result {c : Circuit} {rs : List Report} (h : Means c rs) (now : Int) (failed : Bool) :
    Means (c.result now failed) (⟨c.probe, failed⟩ :: rs) := by
  unfold Circuit.result
  cases failed with
  | false =>
    simp only [if_true]
    split
    · rename_i hp
      rw [hp]
      exact .restart rfl rfl
    · rename_i hp
      exact h.shift (.inr (by simpa using hp)) rfl rfl rfl
  | true =>
    simp only [Bool.true_eq_false, if_false]
    split
    · exact h.shift (.inl rfl) rfl rfl rfl
    · exact h.shift (.inl rfl) rfl rfl rfl

theorem Means.call {c : Circuit} {rs : List Report} (h : Means c rs) (now : Int) (l : Call) :
    Means (call c now l) (reported c l ++ rs) := by
  cases l with
  | allow =>
    unfold Window.call Circuit.allow
    dsimp only [reported]
    split
    · exact h
    · split
      · exact h
      · exact h.same rfl rfl rfl
  | settle s =>
    cases s with
    | result failed => exact h.result now failed
    | release => exact h.same rfl rfl rfl
    | cooldown d =>
      unfold Window.call Settlement.apply Circuit.cooldown
      dsimp only [reported]
      split
      · exact h.same rfl rfl rfl
      · split
        · exact h.same rfl rfl rfl
        · exact h.same rfl rfl rfl

theorem Means.after {c : Circuit} {rs : List Report} (h : Means c rs) (ls : List (Int × Call)) :
    Means (after c ls) ((reports c ls).reverse ++ rs) := by
  induction ls generalizing c rs with
  | nil => exact h
  | cons l ls ih =>
    have hstep := ih (h.call l.1 l.2)
    have hreverse : (reported c l.2).reverse = reported c l.2 := by
      unfold reported
      split <;> rfl
    rwa [reports, List.reverse_append, hreverse, List.append_assoc]

/-- `OnesCount32` of the window counts the failures among the last twenty outcomes. -/
theorem onesCount_window {c : Circuit} {rs : List Report} (h : Means c rs) (hs : c.seen = 20) :
    onesCount (c.recent &&& BitVec.ofNat 32 (2 ^ flapWindow - 1)) =
      ((history rs).take 20).count true := by
  have hlen : 20 ≤ (history rs).length := by
    have hseen := h.seen
    omega
  have htake : (history rs).take 20 = (List.range 20).map (fun i => c.recent.getLsbD i) := by
    apply List.ext_getElem?
    intro i
    by_cases hi : i < 20
    · rw [List.getElem?_take_of_lt hi, h.recent i (by omega)]
      simp [hi]
    · rw [List.getElem?_eq_none (by simp; omega), List.getElem?_eq_none (by simp; omega)]
  have hmask : ∀ i < 32, (BitVec.ofNat 32 (2 ^ flapWindow - 1)).getLsbD i = decide (i < 20) := by
    decide
  have hsplit : List.range 32 = List.range 20 ++ (List.range 12).map (20 + ·) := rfl
  have hlow : (List.range 20).countP (fun i =>
      (c.recent &&& BitVec.ofNat 32 (2 ^ flapWindow - 1)).getLsbD i) =
      (List.range 20).countP (fun i => c.recent.getLsbD i) := by
    apply List.countP_congr
    intro i hi
    have hi : i < 20 := List.mem_range.mp hi
    simp [BitVec.getLsbD_and, hmask i (by omega), hi]
  have hhigh : ((List.range 12).map (20 + ·)).countP (fun i =>
      (c.recent &&& BitVec.ofNat 32 (2 ^ flapWindow - 1)).getLsbD i) = 0 := by
    apply List.countP_eq_zero.mpr
    intro i hi
    obtain ⟨j, hj, rfl⟩ := List.mem_map.mp hi
    have hj : j < 12 := List.mem_range.mp hj
    simp [BitVec.getLsbD_and, hmask (20 + j) (by omega)]
  rw [onesCount, hsplit, List.countP_append, hlow, hhigh, htake, Nat.add_zero, List.count_eq_countP,
    List.countP_map]
  apply List.countP_congr
  intro i _
  simp

theorem flapping_iff {c : Circuit} {rs : List Report} (h : Means c rs) :
    c.flapping = true ↔ 20 ≤ (history rs).length ∧ 8 ≤ ((history rs).take 20).count true := by
  have hseen := h.seen
  unfold Circuit.flapping
  split
  · rename_i hlt
    have hshort : (history rs).length < 20 := by
      unfold flapWindow at hlt
      omega
    constructor
    · intro hf
      cases hf
    · intro hf
      omega
  · rename_i hge
    have hfull : c.seen = 20 ∧ 20 ≤ (history rs).length := by
      unfold flapWindow at hge
      omega
    rw [onesCount_window h hfull.1, decide_eq_true_iff]
    exact ⟨fun hf => ⟨hfull.2, hf⟩, fun hf => hf.2⟩

theorem three_failed_iff (rs : List Report) :
    3 ≤ (rs.takeWhile Report.failed).length ↔ 3 ≤ rs.length ∧ ∀ r ∈ rs.take 3, r.failed = true := by
  rcases rs with _ | ⟨a, _ | ⟨b, _ | ⟨c, rs⟩⟩⟩
  · simp
  · simp [List.takeWhile_cons]
    split <;> simp
  · simp only [List.takeWhile_cons]
    repeat' split
    all_goals simp
  · simp only [List.takeWhile_cons]
    repeat' split
    all_goals simp_all

/-- A failing outcome opens the circuit. -/
def trips (c : Circuit) : Bool :=
  decide (3 ≤ c.failures + 1) ||
    Circuit.flapping { c with recent := c.recent <<< 1 ||| 1, seen := c.bumpSeen }

theorem result_failed (c : Circuit) (now : Int) :
    (c.result now true).openUntil = if trips c = true then some (now + 15 * second) else c.openUntil := by
  unfold Circuit.result trips
  simp only [Bool.true_eq_false, if_false, Bool.or_eq_true, decide_eq_true_eq]
  split
  · rename_i h
    exact (if_pos h).symm
  · rename_i h
    exact (if_neg h).symm

/-- When one more failure opens the circuit, by its outcomes with the newest first. -/
theorem trips_iff {c : Circuit} {rs : List Report} (h : Means c rs) (probe : Bool) :
    trips c = true ↔
      (3 ≤ (⟨probe, true⟩ :: rs : List Report).length ∧ ∀ r ∈ (⟨probe, true⟩ :: rs).take 3, r.failed = true) ∨
        (20 ≤ (history (⟨probe, true⟩ :: rs)).length ∧
          8 ≤ ((history (⟨probe, true⟩ :: rs)).take 20).count true) := by
  have hnext : Means { c with
      failures := c.failures + 1
      recent := c.recent <<< 1 ||| 1
      seen := c.bumpSeen } (⟨probe, true⟩ :: rs) := h.shift (.inl rfl) rfl rfl rfl
  rw [← three_failed_iff, ← hnext.failures, ← flapping_iff hnext, trips, Bool.or_eq_true,
    decide_eq_true_eq]
  rfl

theorem means_of_calls (ls : List (Int × Call)) : Means (after {} ls) (reports {} ls).reverse := by
  have h := Means.fresh.after ls
  rwa [List.append_nil] at h

/-- After any calls on a circuit straight from `New`: what its fields say about the outcomes
that were reported, and when one more failure opens it. -/
theorem window_means_history (ls : List (Int × Call)) :
    let c := after {} ls
    let rs := (reports {} ls).reverse
    c.failures = (rs.takeWhile Report.failed).length ∧
    c.seen = min (history rs).length 20 ∧
    (∀ i < c.seen, (history rs)[i]? = some (c.recent.getLsbD i)) ∧
    ∀ now : Int, let rs' := ⟨c.probe, true⟩ :: rs
      (c.result now true).openUntil =
        if (3 ≤ rs'.length ∧ ∀ r ∈ rs'.take 3, r.failed = true) ∨
            (20 ≤ (history rs').length ∧ 8 ≤ ((history rs').take 20).count true)
        then some (now + 15 * second) else c.openUntil := by
  intro c rs
  have hmeans : Means c rs := means_of_calls ls
  refine ⟨hmeans.failures, hmeans.seen, hmeans.recent, ?_⟩
  intro now rs'
  rw [result_failed]
  exact if_congr (trips_iff hmeans c.probe) rfl rfl

/-- No success among the calls. -/
def NoSuccess (ls : List (Int × Call)) : Prop := ∀ l ∈ ls, l.2 ≠ .settle (.result false)

instance : DecidablePred NoSuccess := fun ls =>
  inferInstanceAs (Decidable (∀ l ∈ ls, l.2 ≠ .settle (.result false)))

/-- The circuit is open until `deadline` at least. -/
def Waits (deadline : Int) (c : Circuit) : Prop := ∃ u, c.openUntil = some u ∧ deadline ≤ u

theorem waits_cooldown (c : Circuit) (now d : Int) : Waits (now + d) (c.cooldown now d) := by
  unfold Circuit.cooldown
  split
  · exact ⟨_, rfl, Int.le_refl _⟩
  · rename_i t ht
    split
    · exact ⟨_, rfl, Int.le_refl _⟩
    · rename_i hle
      exact ⟨t, ht, by omega⟩

theorem Waits.refuses {deadline now : Int} {c : Circuit} (h : Waits deadline c) (ht : now < deadline) :
    (c.allow now).1 = false := by
  obtain ⟨u, hu, hle⟩ := h
  have hlt : now < u := by omega
  simp [Circuit.allow, hu, hlt]

/-- What one call does to a wait, unless it is a success. -/
theorem Waits.call {deadline now : Int} {c : Circuit} {l : Call} (h : Waits deadline c)
    (hl : l ≠ .settle (.result false))
    (hopen : l = .settle (.result true) → trips c = true → deadline ≤ now + 15 * second) :
    Waits deadline (call c now l) := by
  obtain ⟨u, hu, hle⟩ := h
  cases l with
  | allow =>
    refine ⟨u, ?_, hle⟩
    simp only [Window.call, Circuit.allow, hu]
    split
    · exact hu
    · rfl
  | settle s =>
    cases s with
    | release => exact ⟨u, hu, hle⟩
    | cooldown d =>
      simp only [Window.call, Settlement.apply, Circuit.cooldown, hu]
      split
      · rename_i hlt
        exact ⟨_, rfl, by omega⟩
      · exact ⟨u, rfl, hle⟩
    | result failed =>
      cases failed with
      | false => exact absurd rfl hl
      | true =>
        have hr := result_failed c now
        by_cases ht : trips c = true
        · rw [if_pos ht] at hr
          exact ⟨_, hr, hopen rfl ht⟩
        · rw [if_neg ht] at hr
          exact ⟨u, hr.trans hu, hle⟩

/-- No failure that opens the circuit comes more than 15 s before the deadline. -/
def Unhurried (deadline : Int) (c : Circuit) (ls : List (Int × Call)) : Prop :=
  ∀ mid s rest, ls = mid ++ (s, .settle (.result true)) :: rest → NoSuccess mid →
    trips (after c mid) = true → deadline ≤ s + 15 * second

theorem Waits.after {deadline : Int} {c : Circuit} {mid rest : List (Int × Call)}
    (h : Waits deadline c) (hu : Unhurried deadline c (mid ++ rest)) (hs : NoSuccess mid) :
    Waits deadline (after c mid) := by
  induction mid generalizing c with
  | nil => exact h
  | cons l mid ih =>
    have hl : l.2 ≠ .settle (.result false) := hs l List.mem_cons_self
    have hstep : Waits deadline (Window.call c l.1 l.2) := by
      apply h.call hl
      intro he ht
      apply hu [] l.1 (mid ++ rest) _ (fun _ hm => absurd hm List.not_mem_nil) ht
      rw [← he]
      rfl
    apply ih hstep
    · intro mid' s rest' hsplit hno htrips
      apply hu (l :: mid') s rest' (by rw [List.cons_append, hsplit, List.cons_append]) _ htrips
      intro m hm
      rcases List.mem_cons.mp hm with rfl | hm
      · exact hl
      · exact hno m hm
    · intro m hm
      exact hs m (List.mem_cons_of_mem _ hm)

/-- A circuit that is asked to wait for `d` at time `t`, and calls at later and later times:
until a success is reported nobody is let in before the wait is over, exactly when no failure
that opens the circuit comes more than 15 s before the end of the wait. -/
theorem stated_wait_kept_iff (c : Circuit) (t d : Int) (ls : List (Int × Call))
    (hclock : (t :: ls.map Prod.fst).Pairwise (· ≤ ·)) :
    (∀ mid rest now, ls = mid ++ rest → NoSuccess mid → t ≤ now → (∀ l ∈ mid, l.1 ≤ now) →
      now < t + d → ((after (c.cooldown t d) mid).allow now).1 = false) ↔
    Unhurried (t + d) (c.cooldown t d) ls := by
  constructor
  · intro h mid s rest hsplit hno htrips
    by_contra hearly
    have hts : t ≤ s := by
      apply (List.pairwise_cons.mp hclock).1
      rw [hsplit]
      simp
    have hmid : ∀ l ∈ mid, l.1 ≤ s := by
      intro l hl
      have hsorted := (List.pairwise_cons.mp hclock).2
      rw [hsplit, List.map_append, List.map_cons] at hsorted
      exact (List.pairwise_append.mp hsorted).2.2 _ (List.mem_map_of_mem hl) _ List.mem_cons_self
    have hafter : after (c.cooldown t d) (mid ++ [(s, .settle (.result true))]) =
        (after (c.cooldown t d) mid).result s true := after_append _ _ _
    have hrefused := h (mid ++ [(s, .settle (.result true))]) rest (s + 15 * second)
      (by rw [hsplit, List.append_assoc]; rfl) ?_ ?_ ?_ ?_
    · have hopen := result_failed (after (c.cooldown t d) mid) s
      rw [if_pos htrips] at hopen
      rw [hafter, Circuit.allow_fst, Circuit.wouldAllow, hopen] at hrefused
      simp at hrefused
    · intro l hl
      rcases List.mem_append.mp hl with hl | hl
      · exact hno l hl
      · rw [List.mem_singleton.mp hl]
        simp
    · unfold second
      omega
    · intro l hl
      rcases List.mem_append.mp hl with hl | hl
      · have hle := hmid l hl
        unfold second
        omega
      · rw [List.mem_singleton.mp hl]
        unfold second
        dsimp only
        omega
    · omega
  · intro hu mid rest now hsplit hno _ _ hnow
    subst hsplit
    exact ((waits_cooldown c t d).after hu hno).refuses hnow

/-- A circuit that has been told of two failures in a row. -/
def twiceFailed : Circuit :=
  after {} [(0, .settle (.result true)), (0, .settle (.result true))]

/-- A wait of a minute, and a shorter one while it lasts. -/
theorem stated_wait_kept_iff_shorter_wait :
    ((twiceFailed.cooldown 0 (60 * second)).allow (59 * second)).1 = false ∧
    ((∀ mid rest now, [(second, .settle (.cooldown second))] = mid ++ rest → NoSuccess mid → 0 ≤ now →
      (∀ l ∈ mid, l.1 ≤ now) → now < 0 + 60 * second →
      ((after (twiceFailed.cooldown 0 (60 * second)) mid).allow now).1 = false) ↔
    Unhurried (0 + 60 * second) (twiceFailed.cooldown 0 (60 * second))
      [(second, .settle (.cooldown second))]) :=
  ⟨by decide, stated_wait_kept_iff twiceFailed 0 (60 * second) _ (by decide)⟩

/-- The third failure comes after a wait of a minute was asked for, and the provider is tried
again after 15 s. -/
theorem third_failure_shortens_wait :
    ¬ ∀ (c : Circuit) (t d : Int) (ls : List (Int × Call)),
      (t :: ls.map Prod.fst).Pairwise (· ≤ ·) → NoSuccess ls → ∀ now, t ≤ now →
      (∀ l ∈ ls, l.1 ≤ now) → now < t + d →
      ((after (c.cooldown t d) ls).allow now).1 = false := by
  intro h
  have hallow := h twiceFailed 0 (60 * second) [(0, .settle (.result true))] (by decide) (by decide)
    (15 * second) (by decide) (by decide) (by decide)
  exact absurd hallow (by decide)

end Switchboard.Proofs.Window
