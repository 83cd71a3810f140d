import Mathlib

namespace Switchboard.Gateway

/-- Clock readings and durations are integers, in nanoseconds. -/
def second : Int := 1000000000
def millisecond : Int := 1000000

def flapWindow : Nat := 20
def flapFailures : Nat := 8

/-- The breaker of one provider. `openUntil` is `none` for the zero time. The low
bit of `recent` is the newest outcome, and a set bit is a failure. -/
structure Circuit where
  failures : Nat := 0
  openUntil : Option Int := none
  probe : Bool := false
  recent : BitVec 32 := 0
  seen : Nat := 0
deriving DecidableEq, Repr

/-- `bits.OnesCount32`. -/
def onesCount (x : BitVec 32) : Nat := (List.range 32).countP (fun i => x.getLsbD i)

namespace Circuit

def allow (c : Circuit) (now : Int) : Bool × Circuit :=
  match c.openUntil with
  | none => (true, c)
  | some t =>
    if now < t ∨ c.probe = true then (false, c) else (true, { c with probe := true })

/-- `allow` without the claim. -/
def wouldAllow (c : Circuit) (now : Int) : Bool :=
  match c.openUntil with
  | none => true
  | some t => !(decide (now < t)) && !c.probe

def flapping (c : Circuit) : Bool :=
  if c.seen < flapWindow then false
  else decide (flapFailures ≤ onesCount (c.recent &&& BitVec.ofNat 32 (2 ^ flapWindow - 1)))

def bumpSeen (c : Circuit) : Nat := if c.seen < flapWindow then c.seen + 1 else c.seen

def result (c : Circuit) (now : Int) (failed : Bool) : Circuit :=
  if failed = false then
    if c.probe = true then
      { c with probe := false, failures := 0, openUntil := none, recent := 0, seen := 0 }
    else
      { c with probe := false, failures := 0, openUntil := none,
               recent := c.recent <<< 1, seen := c.bumpSeen }
  else
    let c' := { c with probe := false, failures := c.failures + 1,
                       recent := (c.recent <<< 1) ||| 1, seen := c.bumpSeen }
    if 3 ≤ c'.failures ∨ c'.flapping = true then
      { c' with openUntil := some (now + 15 * second) }
    else c'

def release (c : Circuit) : Circuit := { c with probe := false }

/-- Extends an existing wait, never shortens it. -/
def cooldown (c : Circuit) (now d : Int) : Circuit :=
  match c.openUntil with
  | none => { c with probe := false, openUntil := some (now + d) }
  | some t => if t < now + d then { c with probe := false, openUntil := some (now + d) }
              else { c with probe := false }

/-- `allow` admits exactly when `wouldAllow` says so, and changes nothing but the
probe flag. -/
theorem allow_fst (c : Circuit) (now : Int) : (c.allow now).1 = c.wouldAllow now := by
  unfold allow wouldAllow
  split
  · rfl
  · split
    · rename_i h
      rcases h with h | h <;> simp [h]
    · rename_i h
      simp only [not_or] at h
      simp [h.1, h.2]

theorem allow_refused {c : Circuit} {now : Int} (h : (c.allow now).1 = false) :
    (c.allow now).2 = c := by
  unfold allow at h ⊢
  split
  · rfl
  · split
    · rfl
    · rename_i hc
      simp_all

/-- Admission leaves the flag alone on a closed circuit and claims it otherwise. -/
theorem allow_admitted {c : Circuit} {now : Int} (h : (c.allow now).1 = true) :
    (c.openUntil = none ∧ (c.allow now).2 = c) ∨
      (c.openUntil ≠ none ∧ c.probe = false ∧ (c.allow now).2 = { c with probe := true }) := by
  unfold allow at h ⊢
  split at h
  · rename_i hc
    exact .inl ⟨hc, rfl⟩
  · rename_i t hc
    split at h
    · simp at h
    · rename_i hn
      simp only [not_or, Bool.not_eq_true] at hn
      exact .inr ⟨by simp [hc], hn.2, by simp [hn.1, hn.2]⟩

/-- A provider that could be tried can still be tried later, if nobody touched
its circuit in the meantime. -/
theorem wouldAllow_mono {c : Circuit} {now later : Int} (h : c.wouldAllow now = true)
    (ht : now ≤ later) : c.wouldAllow later = true := by
  unfold wouldAllow at h ⊢
  split
  · rfl
  · rename_i t hc
    simp only [hc, Bool.and_eq_true, Bool.not_eq_true', decide_eq_false_iff_not] at h ⊢
    exact ⟨by omega, h.2⟩

@[simp] theorem result_probe (c : Circuit) (now : Int) (failed : Bool) :
    (c.result now failed).probe = false := by
  unfold result
  split
  · split <;> rfl
  · dsimp only
    split <;> rfl

@[simp] theorem release_probe (c : Circuit) : c.release.probe = false := rfl

@[simp] theorem cooldown_probe (c : Circuit) (now d : Int) : (c.cooldown now d).probe = false := by
  unfold cooldown
  split
  · rfl
  · split <;> rfl

end Circuit

/-- The call with which an admitted request settles. -/
inductive Settlement where
  | result (failed : Bool)
  | release
  | cooldown (d : Int)
deriving DecidableEq, Repr

def Settlement.apply (s : Settlement) (c : Circuit) (now : Int) : Circuit :=
  match s with
  | .result failed => c.result now failed
  | .release => c.release
  | .cooldown d => c.cooldown now d

theorem Settlement.apply_probe (s : Settlement) (c : Circuit) (now : Int) :
    (s.apply c now).probe = false := by
  cases s <;> simp [Settlement.apply]

end Switchboard.Gateway
