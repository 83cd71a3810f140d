import Switchboard.Effect.Pool

namespace Switchboard.Effect

/-- Workers over one shared state. A worker that has nothing to do may take up a program;
between operations the state may change by itself, and all workers may be stopped at once. -/
structure Workers (Op : Type) (Ans : Op → Type) (σ ι : Type) where
  step : σ → (o : Op) → Ans o → σ → Prop
  takes : ι → σ → Prog Op Ans Unit → Prop
  env : σ → σ → Prop
  restart : σ → σ → Prop

namespace Workers

/-- The shared state, and what each worker has still to do. -/
structure Shift (Op : Type) (Ans : Op → Type) (σ ι : Type) where
  state : σ
  prog : ι → Prog Op Ans Unit

variable {Op : Type} {Ans : Op → Type} {σ ι : Type} [DecidableEq ι]

/-- Nobody has begun anything. -/
def Shift.idle (s : σ) : Shift Op Ans σ ι := ⟨s, fun _ => .ret ()⟩

inductive Move (W : Workers Op Ans σ ι) : Shift Op Ans σ ι → Shift Op Ans σ ι → Prop where
  | run (c : Shift Op Ans σ ι) (i : ι) (o : Op) (k : Ans o → Prog Op Ans Unit) (x : Ans o) (s : σ)
      (hp : c.prog i = .op o k) (hs : W.step c.state o x s) :
      Move W c ⟨s, Function.update c.prog i (k x)⟩
  | take (c : Shift Op Ans σ ι) (i : ι) (p : Prog Op Ans Unit) (hidle : c.prog i = .ret ())
      (ht : W.takes i c.state p) : Move W c { c with prog := Function.update c.prog i p }
  | env (c : Shift Op Ans σ ι) (s : σ) (he : W.env c.state s) : Move W c { c with state := s }
  | restart (c : Shift Op Ans σ ι) (s : σ) (hr : W.restart c.state s) : Move W c (.idle s)

def Reaches (W : Workers Op Ans σ ι) : Shift Op Ans σ ι → Shift Op Ans σ ι → Prop :=
  Relation.ReflTransGen W.Move

/-- A worker that is left alone goes through its program. -/
theorem reaches_exec {χ ε : Type} {W : Workers Op Ans σ ι} {D : Driver Op Ans σ χ ε} {choose : Op → χ}
    (hstep : ∀ s o x s', D.perform s o (choose o) = some (x, s') → W.step s o x s') (i : ι)
    {c : Shift Op Ans σ ι} {s' : σ} (hexec : D.exec choose (c.prog i) c.state = some ((), s')) :
    W.Reaches c ⟨s', Function.update c.prog i (.ret ())⟩ := by
  generalize hp : c.prog i = p at hexec
  induction p generalizing c with
  | ret a =>
    obtain ⟨-, rfl⟩ := Prod.mk.inj (Option.some.inj hexec)
    have hsame : Function.update c.prog i (.ret ()) = c.prog := by
      rw [← hp, Function.update_eq_self]
    rw [hsame]
    exact .refl
  | op o k ih =>
    rw [Driver.exec] at hexec
    split at hexec
    · cases hexec
    · rename_i x s hs
      have hmove := Move.run c i o k x s hp (hstep _ _ _ _ hs)
      have hrest := ih x (c := ⟨s, Function.update c.prog i (k x)⟩) (by simp) hexec
      rw [Function.update_idem] at hrest
      exact .head hmove hrest

/-- What has to be shown of each kind of move. `I` relates the shared state to everybody's
bookkeeping, and `Q` is what a worker's bookkeeping is like when it has nothing to do. -/
structure Safe (W : Workers Op Ans σ ι) {γ : ι → Type} (G : (i : ι) → Monitor Op Ans (γ i))
    (Q : (i : ι) → γ i → Prop) (I : σ → ((i : ι) → γ i) → Prop) : Prop where
  step : ∀ s g i o x s', I s g → (G i).ok (g i) o → W.step s o x s' →
    (G i).may (g i) o x ∧ I s' (Function.update g i ((G i).next (g i) o x))
  takes : ∀ s g i p, I s g → Q i (g i) → W.takes i s p →
    ∃ h, I s (Function.update g i h) ∧ (G i).wp (fun _ => Q i) p h
  env : ∀ s g s', I s g → W.env s s' → I s' g
  restart : ∀ s g s', I s g → W.restart s s' → ∃ h, I s' h ∧ ∀ i, Q i (h i)

section
variable {γ : ι → Type} {G : (i : ι) → Monitor Op Ans (γ i)} {Q : (i : ι) → γ i → Prop}

theorem wp_update {g : (i : ι) → γ i} {prog : ι → Prog Op Ans Unit}
    (h : ∀ j, (G j).wp (fun _ => Q j) (prog j) (g j)) (i : ι) {p : Prog Op Ans Unit} {b : γ i}
    (hp : (G i).wp (fun _ => Q i) p b) (j : ι) :
    (G j).wp (fun _ => Q j) (Function.update prog i p j) (Function.update g i b j) := by
  by_cases hj : j = i
  · subst hj
    simpa using hp
  · simpa [hj] using h j

/-- The rule for workers. What every move preserves holds throughout, and each worker still
keeps its own rules. -/
theorem Safe.invariant {W : Workers Op Ans σ ι} {I : σ → ((i : ι) → γ i) → Prop} (hsafe : Safe W G Q I)
    {s : σ} {g : (i : ι) → γ i} (hinit : I s g) (hidle : ∀ i, Q i (g i)) {c : Shift Op Ans σ ι}
    (hr : W.Reaches (.idle s) c) : ∃ g, I c.state g ∧ ∀ i, (G i).wp (fun _ => Q i) (c.prog i) (g i) := by
  induction hr with
  | refl => exact ⟨g, hinit, hidle⟩
  | tail _ hm ih =>
    obtain ⟨g, hinv, hwp⟩ := ih
    cases hm with
    | run i o k x s' hp hs =>
      have hi := hwp i
      rw [hp] at hi
      obtain ⟨hmay, hnext⟩ := hsafe.step _ g i o x s' hinv hi.1 hs
      exact ⟨_, hnext, wp_update hwp i (hi.2 x hmay)⟩
    | take i p hret ht =>
      have hi := hwp i
      rw [hret] at hi
      obtain ⟨b, hnext, hp⟩ := hsafe.takes _ g i p hinv hi ht
      exact ⟨_, hnext, wp_update hwp i hp⟩
    | env s' he => exact ⟨g, hsafe.env _ g s' hinv he, hwp⟩
    | restart s' hrestart =>
      obtain ⟨h, hnext, hq⟩ := hsafe.restart _ g s' hinv hrestart
      exact ⟨h, hnext, hq⟩

end

end Workers

end Switchboard.Effect
