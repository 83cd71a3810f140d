import Mathlib

namespace Switchboard.Effect

variable {σ L : Type}

/-- The state a sequence of labels leads to, if every one of them can be taken. -/
def runs (step : σ → L → Option σ) (s : σ) : List L → Option σ
  | [] => some s
  | l :: ls => (step s l).bind (fun s' => runs step s' ls)

/-- `l` leads from `s` to `s'` somewhere in the run. -/
def Visits (step : σ → L → Option σ) (t : σ) (ls : List L) (s : σ) (l : L) (s' : σ) : Prop :=
  ∃ pre post, ls = pre ++ l :: post ∧ runs step t pre = some s ∧ step s l = some s'

theorem Visits.head {step : σ → L → Option σ} {t t' : σ} {l : L} {ls : List L}
    (h : step t l = some t') : Visits step t (l :: ls) t l t' :=
  ⟨[], ls, rfl, rfl, h⟩

theorem Visits.tail {step : σ → L → Option σ} {t t' s s' : σ} {l m : L} {ls : List L}
    (h : step t l = some t') (hv : Visits step t' ls s m s') : Visits step t (l :: ls) s m s' := by
  obtain ⟨pre, post, rfl, hpre, hm⟩ := hv
  refine ⟨l :: pre, post, rfl, ?_, hm⟩
  rw [runs, h]
  exact hpre

theorem Visits.before {step : σ → L → Option σ} {t s s' : σ} {m : L} {pre post : List L}
    (hv : Visits step t pre s m s') : Visits step t (pre ++ post) s m s' := by
  obtain ⟨a, b, rfl, ha, hm⟩ := hv
  exact ⟨a, b ++ post, by simp, ha, hm⟩

/-- What every permitted step preserves, a run of permitted steps preserves. -/
theorem runs_invariant {step : σ → L → Option σ} {Inv : σ → Prop} {Ok : σ → L → Prop}
    (hstep : ∀ s l s', Inv s → Ok s l → step s l = some s' → Inv s') {t t' : σ} {ls : List L}
    (ht : Inv t) (hok : ∀ s l s', Visits step t ls s l s' → Ok s l)
    (hr : runs step t ls = some t') : Inv t' := by
  induction ls generalizing t with
  | nil => exact Option.some.inj hr ▸ ht
  | cons l ls ih =>
    obtain ⟨u, hu, hr⟩ := Option.bind_eq_some_iff.mp hr
    have hl : Ok t l := hok t l u (Visits.head hu)
    exact ih (hstep t l u ht hl hu) (fun s m s' hv => hok s m s' (hv.tail hu)) hr

end Switchboard.Effect
