import Switchboard.Gateway.Config

namespace Switchboard.Proofs
open Text Gateway

/-- Two checks in a row pass when both do. -/
theorem then_ok {x : Except ε Unit} {f : Unit → Except ε β} {b : β} :
    (x >>= f) = .ok b ↔ x = .ok () ∧ f () = .ok b := by
  cases x with
  | error e => exact ⟨nofun, nofun⟩
  | ok a => exact ⟨fun h => ⟨rfl, h⟩, fun h => h.2⟩

theorem reject_ok {bad : Bool} {e : ConfigError} : reject bad e = .ok () ↔ bad = false := by
  cases bad with
  | false => exact ⟨fun _ => rfl, fun _ => rfl⟩
  | true => exact ⟨nofun, nofun⟩

/-- A check that goes through a list passes when it does for each entry. -/
theorem forM_ok {xs : List α} {check : α → Except ε Unit} (h : xs.forM check = .ok ()) :
    ∀ x ∈ xs, check x = .ok () := by
  induction xs with
  | nil => nofun
  | cons a xs ih =>
    obtain ⟨ha, hrest⟩ := then_ok.mp h
    intro x hx
    rcases List.mem_cons.mp hx with rfl | hx
    · exact ha
    · exact ih hrest x hx

/-- A provider as it may be configured. -/
structure ValidProvider (lib : Lib) (allowLocalHTTP : Bool) (name : String) (p : ProviderConfig) :
    Prop where
  known : knownProvider name = true
  url : secureURL lib p.url allowLocalHTTP = true
  region : name = "bedrock" → identifier p.region = true

/-- What a configuration that passes its check is known for. -/
structure ValidConfig (lib : Lib) (c : Config) : Prop where
  limits : ∀ l ∈ c.limits, l.min ≤ l.v ∧ l.v ≤ l.max
  providers : ∀ name p, c.providers.lookup name = some p → ValidProvider lib c.allowLocalHTTP name p

theorem validProvider_of_check {lib : Lib} {isLocal : Bool} {name : String} {p : ProviderConfig}
    (h : checkProvider lib isLocal name p = .ok ()) : ValidProvider lib isLocal name p := by
  simp only [checkProvider, then_ok, reject_ok] at h
  obtain ⟨hknown, hurl, hrest⟩ := h
  refine ⟨by simpa using hknown, by simpa using hurl, fun hb => ?_⟩
  rw [if_pos hb, reject_ok] at hrest
  simpa using hrest

theorem valid_of_validate {lib : Lib} {c : Config} (h : c.validate lib = .ok ()) :
    ValidConfig lib c := by
  unfold Config.validate at h
  cases hlisten : lib.splitHostPort c.listen with
  | none => simp [hlisten, then_ok] at h
  | some address =>
    simp only [hlisten, then_ok] at h
    obtain ⟨-, -, -, hlimits, -, -, -, -, hproviders, -⟩ := h
    refine ⟨fun l hl => ?_, fun name p hp => ?_⟩
    · have hcheck := forM_ok hlimits l hl
      simp only [Limit.check, reject_ok, decide_eq_false_iff_not] at hcheck
      omega
    · exact validProvider_of_check (forM_ok hproviders ⟨name, p⟩ (AList.mem_lookup_iff.mp hp))

/-- At least one attempt is allowed. -/
theorem ValidConfig.maxAttempts {lib : Lib} {c : Config} (h : ValidConfig lib c) : 0 < c.maxAttempts := by
  have hl := (h.limits ⟨"max_attempts", c.maxAttempts, 1, 3⟩ (by simp [Config.limits])).1
  exact hl

theorem ValidConfig.attemptsBounded {lib : Lib} {c : Config} (h : ValidConfig lib c) :
    c.maxAttempts ≤ 3 := by
  have hl := (h.limits ⟨"max_attempts", c.maxAttempts, 1, 3⟩ (by simp [Config.limits])).2
  exact hl

end Switchboard.Proofs
