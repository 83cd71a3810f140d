import Switchboard.Effect.Labelled
import Switchboard.Proofs.Store

namespace Switchboard.Proofs.Sweep
open Effect Text Gateway Store

/-- The store with the clock and the pass of the sweep that goes on beside it. -/
structure Shop where
  now : Int
  store : IdemStore
  sweeper : Sweeper := {}

/-- A call of somebody on the store, a step of the sweep, or time. -/
inductive Call where
  | tick (d : Nat)
  | begin (key : String) (body : Bytes) (disk : DiskWrite)
  | finish (key : String) (e : IdemEntry) (disk : DiskWrite)
  | release (key : String) (removed : Bool)
  | sweep (step : SweepStep)

namespace Shop
variable (sha256 : Bytes → Bytes)

def step (s : Shop) : Call → Option Shop
  | .tick d => some { s with now := s.now + d }
  | .begin key body disk =>
    some { s with store := (s.store.begin sha256 s.now key body disk).2.2 }
  | .finish key e disk => some { s with store := (s.store.finish sha256 s.now key e disk).2 }
  | .release key removed => some { s with store := s.store.release sha256 key removed }
  | .sweep step =>
    (s.store.sweep s.now s.sweeper step).map (fun (store, sweeper) =>
      { s with store := store, sweeper := sweeper })

end Shop

/-- A file the sweep may delete on behalf of `v`. -/
structure Stale (s : Shop) (v : Victim) (f : IdemFile) : Prop where
  old : s.store.ttl < s.now - f.modTime
  size : v.size = f.content.length

/-- No listed file is written to: what is found under its name after the call was there
before. -/
def LeavesListed (sha256 : Bytes → Bytes) (s : Shop) (c : Call) : Prop :=
  ∀ s', s.step sha256 c = some s' → ∀ v ∈ s.sweeper.victims, ∀ f,
    s'.store.files.lookup v.name = some f → s.store.files.lookup v.name = some f

/-- What is still there of the files a pass has listed is as old as it was, and as long. -/
def Listed (s : Shop) : Prop :=
  ∀ v ∈ s.sweeper.victims, ∀ f, s.store.files.lookup v.name = some f → Stale s v f

section
variable {sha256 : Bytes → Bytes} {s s' : Shop}

theorem mem_expired {s : IdemStore} {now : Int} {v : Victim} (h : v ∈ s.expired now) :
    ∃ f, s.files.lookup v.name = some f ∧ s.ttl < now - f.modTime ∧ v.size = f.content.length := by
  obtain ⟨f, hf, rfl⟩ := List.mem_map.mp h
  obtain ⟨hmem, hold⟩ := List.mem_filter.mp (List.mem_of_mem_take hf)
  obtain ⟨e, he, rfl⟩ := List.mem_map.mp ((sortKeys_perm _).mem_iff.mp hmem)
  exact ⟨e.2, AList.mem_lookup_iff.mpr he, by simpa using hold, rfl⟩

/-- A call that only writes and deletes files keeps the listing true. -/
theorem Listed.call {c : Call} (h : Listed s) (hc : LeavesListed sha256 s c)
    (hs : s.step sha256 c = some s') (hnow : s'.now = s.now) (httl : s'.store.ttl = s.store.ttl)
    (hsweeper : s'.sweeper = s.sweeper) : Listed s' := by
  intro v hv f hf
  rw [hsweeper] at hv
  obtain ⟨hold, hsize⟩ := h v hv f (hc s' hs v hv f hf)
  exact ⟨by rw [hnow, httl]; exact hold, hsize⟩

theorem Listed.sweep {step : SweepStep} (h : Listed s) (hs : s.step sha256 (.sweep step) = some s') :
    Listed s' := by
  obtain ⟨⟨store, sweeper⟩, hsweep, rfl⟩ := Option.map_eq_some_iff.mp hs
  cases step with
  | scan =>
    simp only [IdemStore.sweep] at hsweep
    split at hsweep
    · cases hsweep
      intro v hv f hf
      obtain ⟨f', hf', hold, hsize⟩ := mem_expired hv
      obtain rfl : f' = f := Option.some.inj (hf'.symm.trans hf)
      exact ⟨hold, hsize⟩
    · cases hsweep
  | remove deleted =>
    simp only [IdemStore.sweep] at hsweep
    split at hsweep
    · rename_i v vs hv hr
      have htail : ∀ u ∈ vs, u ∈ s.sweeper.victims := fun u hu => hv ▸ List.mem_cons_of_mem v hu
      split at hsweep
      · cases hsweep
        intro u hu f hf
        by_cases hname : u.name = v.name
        · dsimp only at hf
          rw [hname, AList.lookup_erase] at hf
          cases hf
        · rw [AList.lookup_erase_ne hname] at hf
          obtain ⟨hold, hsize⟩ := h u (htail u hu) f hf
          exact ⟨hold, hsize⟩
      · cases hsweep
        exact fun u hu f hf => ⟨(h u (htail u hu) f hf).old, (h u (htail u hu) f hf).size⟩
    · cases hsweep
  | account =>
    simp only [IdemStore.sweep] at hsweep
    split at hsweep
    · cases hsweep
      exact fun v hv f hf => ⟨(h v hv f hf).old, (h v hv f hf).size⟩
    · cases hsweep

/-- Neither time nor the sweep itself writes to any file. -/
theorem leavesListed_sweep {step : SweepStep} : LeavesListed sha256 s (.sweep step) := by
  intro s' hs v _ f hf
  obtain ⟨⟨store, sweeper⟩, hsweep, rfl⟩ := Option.map_eq_some_iff.mp hs
  dsimp only at hf
  cases step with
  | scan =>
    simp only [IdemStore.sweep] at hsweep
    split at hsweep <;> cases hsweep
    exact hf
  | remove deleted =>
    simp only [IdemStore.sweep] at hsweep
    split at hsweep
    · split at hsweep
      · cases hsweep
        rename_i u us _ _ _
        by_cases hname : v.name = u.name
        · rw [hname, AList.lookup_erase] at hf
          cases hf
        · rwa [AList.lookup_erase_ne hname] at hf
      · cases hsweep
        exact hf
    · cases hsweep
  | account =>
    simp only [IdemStore.sweep] at hsweep
    split at hsweep <;> cases hsweep
    exact hf

theorem leavesListed_tick {d : Nat} : LeavesListed sha256 s (.tick d) := by
  intro s' hs v _ f hf
  cases hs
  exact hf

theorem Listed.step {c : Call} (h : Listed s) (hc : LeavesListed sha256 s c)
    (hs : s.step sha256 c = some s') : Listed s' := by
  cases c with
  | tick d =>
    cases hs
    intro v hv f hf
    obtain ⟨hold, hsize⟩ := h v hv f hf
    exact ⟨by dsimp only; omega, hsize⟩
  | begin key body disk =>
    have hkept := (begun sha256 s.store s.now key body disk).elsewhere
    exact h.call hc hs (by cases hs; rfl) (by cases hs; exact hkept.ttl) (by cases hs; rfl)
  | finish key e disk =>
    obtain ⟨r, hw⟩ := finish_written sha256 s.store s.now key e disk
    exact h.call hc hs (by cases hs; rfl) (by cases hs; exact hw.elsewhere.ttl) (by cases hs; rfl)
  | release key removed =>
    have hkept := release_elsewhere sha256 s.store key removed
    exact h.call hc hs (by cases hs; rfl) (by cases hs; exact hkept.ttl) (by cases hs; rfl)
  | sweep step => exact h.sweep hs

end

/-- What the sweep deletes: the file that is there at that moment. -/
def Deletes (s : Shop) (c : Call) (s' : Shop) (v : Victim) (f : IdemFile) : Prop :=
  c = .sweep (.remove true) ∧ s.store.files.lookup v.name = some f ∧
    s'.store.files.lookup v.name = none ∧ s'.sweeper.removed = some v

/-- As long as nothing is written to a file between the scan that lists it and its
deletion, the sweep deletes only what has expired, and takes off the account the size of
what it has deleted. -/
theorem sweep_spares_live_entries (sha256 : Bytes → Bytes) (t : Shop) (ht : t.sweeper = {})
    (calls : List Call)
    (hlisted : ∀ s c s', Visits (Shop.step sha256) t calls s c s' → LeavesListed sha256 s c)
    (s s' : Shop) (c : Call) (hv : Visits (Shop.step sha256) t calls s c s') :
    (∀ v f, Deletes s c s' v f → s.store.ttl < s.now - f.modTime ∧ v.size = f.content.length) ∧
    (c = .sweep .account → ∃ v, s.sweeper.removed = some v ∧
      s'.store.used = s.store.used - v.size) := by
  obtain ⟨pre, post, rfl, hpre, hstep⟩ := hv
  have hinv : Listed s := by
    refine runs_invariant
      (fun s l s' (hi : Listed s) (hl : LeavesListed sha256 s l) hs => hi.step hl hs) ?_ ?_ hpre
    · intro v hv
      simp [ht] at hv
    · intro s l s' hv
      exact hlisted s l s' hv.before
  refine ⟨?_, ?_⟩
  · rintro v f ⟨rfl, hf, -, hremoved⟩
    obtain ⟨⟨store, sweeper⟩, hsweep, rfl⟩ := Option.map_eq_some_iff.mp hstep
    simp only [IdemStore.sweep] at hsweep
    split at hsweep
    · rename_i u us hu _
      split at hsweep
      · cases hsweep
        obtain rfl : u = v := Option.some.inj hremoved
        obtain ⟨hold, hsize⟩ := hinv u (by simp [hu]) f hf
        exact ⟨hold, hsize⟩
      · cases hsweep
        cases hremoved
    · cases hsweep
  · rintro rfl
    obtain ⟨⟨store, sweeper⟩, hsweep, rfl⟩ := Option.map_eq_some_iff.mp hstep
    simp only [IdemStore.sweep] at hsweep
    split at hsweep
    · rename_i v hr
      cases hsweep
      exact ⟨v, hr, rfl⟩
    · cases hsweep

/-- A store with one file, as old as the store lets files get. -/
def ageing : Shop where
  now := 10
  store := { files := AList.insert (IdemStore.path id "a") ⟨[], 0⟩ ∅, ttl := 10, limit := 1000 }

/-- The file expires and is listed, and its key is claimed again before it is deleted. -/
def reclaimed : List Call := [.tick 1, .sweep .scan, .begin "a" [] .complete]

/-- The claim the sweep finds under the name it has listed. -/
def freshClaim : IdemFile := ⟨encodeEntry (running id 11 []), 11⟩

theorem sweep_deletes_fresh_claim :
    ∃ s s' v, Visits (Shop.step id) ageing (reclaimed ++ [.sweep (.remove true)]) s
        (.sweep (.remove true)) s' ∧
      Deletes s (.sweep (.remove true)) s' v freshClaim ∧
      ¬ s.store.ttl < s.now - freshClaim.modTime ∧ v.size ≠ freshClaim.content.length := by
  have hs : (runs (Shop.step id) ageing reclaimed).isSome = true := by decide
  have hs' : ((runs (Shop.step id) ageing reclaimed).bind
      (fun s => s.step id (.sweep (.remove true)))).isSome = true := by decide
  obtain ⟨s, hrun⟩ := Option.isSome_iff_exists.mp hs
  obtain ⟨s', hbind⟩ := Option.isSome_iff_exists.mp hs'
  have hstep : s.step id (.sweep (.remove true)) = some s' := by simpa [hrun] using hbind
  have hfacts : (runs (Shop.step id) ageing reclaimed).all (fun s =>
      (s.store.files.lookup (IdemStore.path id "a") == some freshClaim) &&
        decide (s.now - freshClaim.modTime ≤ s.store.ttl)) = true := by decide
  have hfacts' : ((runs (Shop.step id) ageing reclaimed).bind
      (fun s => s.step id (.sweep (.remove true)))).all (fun s' =>
        (s'.store.files.lookup (IdemStore.path id "a")).isNone &&
          decide (s'.sweeper.removed = some ⟨IdemStore.path id "a", 0⟩)) = true := by
    decide
  rw [hbind] at hfacts'
  rw [hrun] at hfacts
  simp only [Option.all_some, Bool.and_eq_true, beq_iff_eq, decide_eq_true_eq,
    Option.isNone_iff_eq_none] at hfacts hfacts'
  refine ⟨s, s', ⟨IdemStore.path id "a", 0⟩, ⟨reclaimed, [], rfl, hrun, hstep⟩,
    ⟨rfl, hfacts.1, hfacts'.1, hfacts'.2⟩, Int.not_lt.mpr hfacts.2, ?_⟩
  decide

/-- The same pass without the claim deletes the file that has expired. -/
theorem sweep_spares_live_entries_unclaimed :
    (runs (Shop.step id) ageing [.tick 1, .sweep .scan, .sweep (.remove true)]).any
      (fun s => decide (s.sweeper.removed = some ⟨IdemStore.path id "a", 0⟩)) = true ∧
    ∀ s c s', Visits (Shop.step id) ageing [.tick 1, .sweep .scan, .sweep (.remove true)] s c s' →
      ∀ v f, Deletes s c s' v f → s.store.ttl < s.now - f.modTime ∧ v.size = f.content.length := by
  have hleaves : ∀ s c s', Visits (Shop.step id) ageing
      [.tick 1, .sweep .scan, .sweep (.remove true)] s c s' → LeavesListed id s c := by
    rintro s c s' ⟨pre, post, hcalls, -⟩
    have hc : c ∈ ([.tick 1, .sweep .scan, .sweep (.remove true)] : List Call) := by simp [hcalls]
    simp only [List.mem_cons, List.not_mem_nil, or_false] at hc
    rcases hc with rfl | rfl | rfl
    · exact leavesListed_tick
    · exact leavesListed_sweep
    · exact leavesListed_sweep
  exact ⟨by decide, fun s c s' hv =>
    (sweep_spares_live_entries id ageing rfl _ hleaves s s' c hv).1⟩

end Switchboard.Proofs.Sweep
