import Switchboard.Gateway.Fault
import Switchboard.Proofs.Window

namespace Switchboard.Proofs.Cooldown
open Gateway Text Window

/-- The half-open probe is claimed only after the wait is over. -/
def Claimed (c : Circuit) (now : Int) : Prop :=
  c.probe = true → ∃ u, c.openUntil = some u ∧ u ≤ now

theorem Claimed.mono {c : Circuit} {now later : Int} (h : Claimed c now) (ht : now ≤ later) :
    Claimed c later := by
  intro hp
  obtain ⟨u, hu, hle⟩ := h hp
  exact ⟨u, hu, by omega⟩

theorem Claimed.call {c : Circuit} {now : Int} (h : Claimed c now) (l : Window.Call) :
    Claimed (call c now l) now := by
  intro hp
  cases l with
  | settle s =>
    rw [Window.call, Settlement.apply_probe] at hp
    cases hp
  | allow =>
    cases ha : (c.allow now).1 with
    | false =>
      rw [Window.call, Circuit.allow_refused ha] at hp ⊢
      exact h hp
    | true =>
      rcases Circuit.allow_admitted ha with ⟨-, hsame⟩ | ⟨hopen, hfree, hclaim⟩
      · rw [Window.call, hsame] at hp ⊢
        exact h hp
      · obtain ⟨u, hu⟩ := Option.ne_none_iff_exists'.mp hopen
        rw [Window.call, hclaim]
        refine ⟨u, hu, ?_⟩
        rw [Circuit.allow_fst, Circuit.wouldAllow, hu] at ha
        simp only [Bool.and_eq_true, Bool.not_eq_true', decide_eq_false_iff_not] at ha
        omega

theorem Claimed.after {c : Circuit} {now : Int} (h : Claimed c now) (ls : List (Int × Window.Call)) (t : Int)
    (hclock : (now :: ls.map Prod.fst ++ [t]).Pairwise (· ≤ ·)) : Claimed (after c ls) t := by
  induction ls generalizing c now with
  | nil =>
    apply h.mono
    exact (List.pairwise_cons.mp hclock).1 t (List.mem_singleton_self t)
  | cons l ls ih =>
    obtain ⟨hfirst, hrest⟩ := List.pairwise_cons.mp hclock
    have hle : now ≤ l.1 := hfirst l.1 List.mem_cons_self
    exact ih ((h.mono hle).call l.2) hrest

/-- A failure that opens the circuit keeps everybody out for 15 s, whatever else but a success
is reported in the meantime. -/
theorem refuses_after_trip {c : Circuit} {t now : Int} {mid : List (Int × Window.Call)}
    (htrips : trips c = true) (hno : NoSuccess mid) (hlater : ∀ l ∈ mid, t ≤ l.1)
    (hnow : now < t + 15 * second) : ((after (c.result t true) mid).allow now).1 = false := by
  have hwaits : Waits (t + 15 * second) (c.result t true) := by
    refine ⟨t + 15 * second, ?_, Int.le_refl _⟩
    rw [result_failed, if_pos htrips]
  have hunhurried : Unhurried (t + 15 * second) (c.result t true) (mid ++ []) := by
    intro before s rest hsplit _ _
    have hs : t ≤ s := by
      apply hlater (s, .settle (.result true))
      rw [← List.append_nil mid, hsplit]
      exact List.mem_append_right _ List.mem_cons_self
    omega
  exact (hwaits.after hunhurried hno).refuses hnow

/-- A failure that does not open the circuit lets the next one in at once. -/
theorem admits_after_probe {c : Circuit} {t : Int} (hclaimed : Claimed c t) (hprobe : c.probe = true)
    (htrips : ¬ trips c = true) : ((c.result t true).allow t).1 = true := by
  obtain ⟨u, hu, hle⟩ := hclaimed hprobe
  have hopen := result_failed c t
  rw [if_neg htrips, hu] at hopen
  rw [Circuit.allow_fst, Circuit.wouldAllow, hopen]
  simp [hle]

/-- After any calls at later and later times, with the half-open probe claimed: a failure is
reported, and nobody is let in for 15 s, exactly when the failure is the third in a row or
leaves eight failures among the last twenty outcomes. -/
theorem failed_probe_rearms_iff (ls : List (Int × Window.Call)) (t : Int)
    (hclock : (ls.map Prod.fst ++ [t]).Pairwise (· ≤ ·)) (hprobe : (after {} ls).probe = true) :
    (∀ (mid : List (Int × Window.Call)) (now : Int), NoSuccess mid →
      (t :: mid.map Prod.fst ++ [now]).Pairwise (· ≤ ·) → now < t + 15 * second →
      ((after ((after {} ls).result t true) mid).allow now).1 = false) ↔
    let rs := ⟨true, true⟩ :: (reports {} ls).reverse
    (3 ≤ rs.length ∧ ∀ r ∈ rs.take 3, r.failed = true) ∨
      (20 ≤ (history rs).length ∧ 8 ≤ ((history rs).take 20).count true) := by
  have htrips_iff := trips_iff (means_of_calls ls) true
  refine Iff.trans ?_ htrips_iff
  constructor
  · intro h
    by_contra htrips
    have hclaimed : Claimed (after {} ls) t := by
      cases ls with
      | nil => cases hprobe
      | cons l ls =>
        have hfresh : Claimed {} l.1 := nofun
        exact (hfresh.call l.2).after ls t hclock
    have hadmits := admits_after_probe hclaimed hprobe htrips
    have hrefused := h [] t (fun _ hl => absurd hl List.not_mem_nil) (by simp) (by unfold second; omega)
    rw [show after ((after {} ls).result t true) [] = (after {} ls).result t true from rfl,
      hadmits] at hrefused
    cases hrefused
  · intro htrips mid now hno hlater hnow
    apply refuses_after_trip htrips hno _ hnow
    intro l hl
    apply (List.pairwise_cons.mp hlater).1
    exact List.mem_append_left _ (List.mem_map_of_mem hl)

/-- Three failures in a row, the probe after 15 s, and it fails. -/
def downCalls : List (Int × Window.Call) :=
  [(0, .settle (.result true)), (0, .settle (.result true)), (0, .settle (.result true)),
    (15 * second, .allow)]

theorem failed_probe_rearms_iff_down :
    (after {} downCalls).probe = true ∧
      ((after ((after {} downCalls).result (15 * second) true) []).allow (29 * second)).1 = false := by
  refine ⟨by decide, ?_⟩
  exact (failed_probe_rearms_iff downCalls (15 * second) (by decide) (by decide)).mpr (by decide) []
    (29 * second) (by decide) (by decide) (by decide)

/-- A provider that asked for a minute is tried after it and fails; the next request is let in
at the same moment. -/
theorem failed_probe_after_cooldown_admits :
    ¬ ∀ (ls : List (Int × Window.Call)) (t now : Int), (ls.map Prod.fst ++ [t, now]).Pairwise (· ≤ ·) →
      (after {} ls).probe = true → now < t + 15 * second →
      (((after {} ls).result t true).allow now).1 = false := by
  intro h
  have hrefused := h [(0, .settle (.cooldown (60 * second))), (60 * second, .allow)] (60 * second)
    (60 * second) (by decide) (by decide) (by decide)
  exact absurd hrefused (by decide)

/-- The delay that is asked for in seconds, as far as it is granted. -/
def granted (n : Int) : Int := min (n * second) maxCooldown

theorem retryAfter_seconds {parseTime : String → Option Int} {now : Int} {h : String} {n : Int}
    (hn : Strings.atoi (Strings.trimSpace h.toList) = some n) (hpos : 0 < n) :
    retryAfter parseTime now h = min (wrap64 (n * second)) maxCooldown := by
  have hne : h ≠ "" := by
    intro he
    rw [he] at hn
    cases hn
  unfold retryAfter
  rw [if_neg hne, hn]
  dsimp only
  rw [if_neg (by omega)]

/-- Without a positive number of seconds the delay is within its bounds. -/
theorem retryAfter_other {parseTime : String → Option Int} {now : Int} {h : String}
    (hn : ∀ n, Strings.atoi (Strings.trimSpace h.toList) = some n → n ≤ 0) :
    0 ≤ retryAfter parseTime now h ∧ retryAfter parseTime now h ≤ maxCooldown := by
  have hmax : (0 : Int) ≤ maxCooldown := by decide
  unfold retryAfter
  split
  · exact ⟨Int.le_refl 0, hmax⟩
  · split
    · rename_i n heq
      rw [if_pos (hn n heq)]
      exact ⟨Int.le_refl 0, hmax⟩
    · split
      · split
        · rename_i hlater
          exact ⟨Int.le_min.mpr ⟨by omega, hmax⟩, Int.min_le_right _ _⟩
        · exact ⟨Int.le_refl 0, hmax⟩
      · exact ⟨Int.le_refl 0, hmax⟩

theorem min_wrap_iff {n : Int} (hpos : 0 < n) :
    min (wrap64 (n * second)) maxCooldown = granted n ↔
      n * second ≤ 9223372036854775807 ∨ maxCooldown ≤ wrap64 (n * second) := by
  unfold granted
  by_cases hfits : n * second ≤ 9223372036854775807
  · rw [wrap64_of_fits (by unfold second; omega) hfits]
    exact ⟨fun _ => .inl hfits, fun _ => rfl⟩
  · have hlarge : maxCooldown ≤ n * second := by
      unfold maxCooldown second at *
      omega
    rw [Int.min_eq_right hlarge, min_eq_right_iff]
    exact ⟨.inr, fun h => h.resolve_left hfits⟩

/-- The delay a provider asks for is between nothing and five minutes, and what it asks for in
seconds is granted up to five minutes, exactly when the number of seconds does not overflow in
nanoseconds, or wraps around to five minutes or more. -/
theorem retryAfter_faithful_iff (parseTime : String → Option Int) (now : Int) (h : String) :
    (0 ≤ retryAfter parseTime now h ∧ retryAfter parseTime now h ≤ 5 * 60 * second ∧
      ∀ n, Strings.atoi (Strings.trimSpace h.toList) = some n → 0 < n →
        retryAfter parseTime now h = min (n * second) (5 * 60 * second)) ↔
    ∀ n, Strings.atoi (Strings.trimSpace h.toList) = some n → 0 < n →
      n * second ≤ 9223372036854775807 ∨ 5 * 60 * second ≤ wrap64 (n * second) := by
  constructor
  · rintro ⟨-, -, hexact⟩ n hn hpos
    apply (min_wrap_iff hpos).mp
    rw [← retryAfter_seconds hn hpos]
    exact hexact n hn hpos
  · intro hfits
    have hseconds : ∀ n, Strings.atoi (Strings.trimSpace h.toList) = some n → 0 < n →
        retryAfter parseTime now h = granted n := by
      intro n hn hpos
      rw [retryAfter_seconds hn hpos]
      exact (min_wrap_iff hpos).mpr (hfits n hn hpos)
    by_cases hn : ∃ n, Strings.atoi (Strings.trimSpace h.toList) = some n ∧ 0 < n
    · obtain ⟨n, hn, hpos⟩ := hn
      have hnonneg : 0 ≤ granted n :=
        Int.le_min.mpr ⟨by unfold second; omega, by decide⟩
      rw [hseconds n hn hpos]
      refine ⟨hnonneg, Int.min_le_right _ _, fun m hm hmpos => ?_⟩
      rw [hn] at hm
      rw [← Option.some.inj hm]
      rfl
    · have hother : ∀ n, Strings.atoi (Strings.trimSpace h.toList) = some n → n ≤ 0 := by
        intro n heq
        by_contra hpos
        exact hn ⟨n, heq, by omega⟩
      obtain ⟨hlow, hhigh⟩ := retryAfter_other hother
      exact ⟨hlow, hhigh, fun n heq hpos => absurd ⟨n, heq, hpos⟩ hn⟩

/-- The least number of seconds that overflows asks for a negative delay. -/
theorem retryAfter_overflows :
    Strings.atoi (Strings.trimSpace "9223372037".toList) = some 9223372037 ∧
      retryAfter (fun _ => none) 0 "9223372037" = -9223372036709551616 := by
  decide

end Switchboard.Proofs.Cooldown
