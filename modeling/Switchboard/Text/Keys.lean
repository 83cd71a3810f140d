import Mathlib

namespace Switchboard.Text

/-- The order of code points, which is also the order of UTF-8 bytes. -/
def keyLe : List Char → List Char → Bool
  | [], _ => true
  | _ :: _, [] => false
  | a :: as, b :: bs => if a = b then keyLe as bs else decide (a.toNat < b.toNat)

def KeyLe (a b : String × β) : Prop := keyLe a.1.toList b.1.toList = true

instance : DecidableRel (KeyLe (β := β)) := fun a b =>
  inferInstanceAs (Decidable (keyLe a.1.toList b.1.toList = true))

/-- The entries of a map in the order of their keys. -/
def sortKeys (fs : List (String × β)) : List (String × β) := fs.insertionSort KeyLe

theorem keyLe_total (a b : List Char) : keyLe a b = true ∨ keyLe b a = true := by
  induction a generalizing b with
  | nil => exact Or.inl rfl
  | cons c cs ih =>
    cases b with
    | nil => exact Or.inr rfl
    | cons d ds =>
      by_cases hcd : c = d
      · subst hcd
        simpa [keyLe] using ih ds
      · have hne : c.toNat ≠ d.toNat := fun h => hcd (Char.toNat_inj.mp h)
        simp only [keyLe, hcd, Ne.symm hcd, if_false, decide_eq_true_eq]
        omega

theorem keyLe_trans {a b c : List Char} (hab : keyLe a b = true) (hbc : keyLe b c = true) :
    keyLe a c = true := by
  induction a generalizing b c with
  | nil => rfl
  | cons x xs ih =>
    cases b with
    | nil => simp [keyLe] at hab
    | cons y ys =>
      cases c with
      | nil => simp [keyLe] at hbc
      | cons z zs =>
        simp only [keyLe] at hab hbc ⊢
        split at hab
        · subst x
          split at hbc
          · rename_i hyz
            subst y
            simpa using ih hab hbc
          · rename_i hyz
            simpa [hyz] using hbc
        · rename_i hxy
          split at hbc
          · subst y
            simpa [hxy] using hab
          · simp only [decide_eq_true_eq] at hab hbc
            have hxz : x ≠ z := by
              rintro rfl
              omega
            simp only [hxz, if_false, decide_eq_true_eq]
            omega

theorem keyLe_antisymm {a b : List Char} (hab : keyLe a b = true) (hba : keyLe b a = true) :
    a = b := by
  induction a generalizing b with
  | nil =>
    cases b with
    | nil => rfl
    | cons d ds => simp [keyLe] at hba
  | cons c cs ih =>
    cases b with
    | nil => simp [keyLe] at hab
    | cons d ds =>
      simp only [keyLe] at hab hba
      split at hab
      · subst c
        simp only [if_true] at hba
        rw [ih hab hba]
      · rename_i hcd
        simp only [Ne.symm hcd, if_false, decide_eq_true_eq] at hab hba
        omega

instance : Std.Total (KeyLe (β := β)) := ⟨fun a b => keyLe_total a.1.toList b.1.toList⟩

instance : IsTrans (String × β) KeyLe := ⟨fun _ _ _ h₁ h₂ => keyLe_trans h₁ h₂⟩

theorem sortKeys_perm (fs : List (String × β)) : (sortKeys fs).Perm fs :=
  List.perm_insertionSort KeyLe fs

/-- A map has one order: entries whose keys are distinct are written the same
whatever order they were given in. -/
theorem sortKeys_eq {fs gs : List (String × β)} (hn : (fs.map Prod.fst).Nodup)
    (hp : fs.Perm gs) : sortKeys fs = sortKeys gs := by
  have hperm : (sortKeys fs).Perm (sortKeys gs) :=
    ((sortKeys_perm fs).trans hp).trans (sortKeys_perm gs).symm
  refine hperm.eq_of_pairwise ?_ (List.pairwise_insertionSort KeyLe fs)
    (List.pairwise_insertionSort KeyLe gs)
  intro a b ha hb hab hba
  have hkey : a.1 = b.1 := String.toList_inj.mp (keyLe_antisymm hab hba)
  have ha' : a ∈ fs := (sortKeys_perm fs).mem_iff.mp ha
  have hb' : b ∈ fs := hp.mem_iff.mpr ((sortKeys_perm gs).mem_iff.mp hb)
  exact List.inj_on_of_nodup_map hn ha' hb' hkey

theorem mem_of_lookup {fs : List (String × β)} {k : String} {v : β} (h : fs.lookup k = some v) :
    (k, v) ∈ fs := by
  induction fs with
  | nil => simp at h
  | cons f fs ih =>
    obtain ⟨k', v'⟩ := f
    rw [List.lookup_cons] at h
    split at h
    · rename_i heq
      obtain rfl := Option.some.inj h
      rw [beq_iff_eq.mp heq]
      exact List.mem_cons_self
    · exact List.mem_cons_of_mem _ (ih h)

theorem lookup_of_mem {fs : List (String × β)} (hn : (fs.map Prod.fst).Nodup) {k : String} {v : β}
    (h : (k, v) ∈ fs) : fs.lookup k = some v := by
  induction fs with
  | nil => cases h
  | cons f fs ih =>
    obtain ⟨k', v'⟩ := f
    simp only [List.map_cons, List.nodup_cons] at hn
    rcases List.mem_cons.mp h with heq | hmem
    · cases heq
      simp
    · have hne : k ≠ k' := by
        rintro rfl
        exact hn.1 (List.mem_map.mpr ⟨(k, v), hmem, rfl⟩)
      rw [List.lookup_cons, beq_false_of_ne hne]
      exact ih hn.2 hmem

theorem lookup_sortKeys {fs : List (String × β)} (hn : (fs.map Prod.fst).Nodup) (k : String) :
    (sortKeys fs).lookup k = fs.lookup k := by
  have hsorted : ((sortKeys fs).map Prod.fst).Nodup :=
    ((sortKeys_perm fs).map Prod.fst).nodup_iff.mpr hn
  ext v
  constructor
  · intro h
    exact lookup_of_mem hn ((sortKeys_perm fs).mem_iff.mp (mem_of_lookup h))
  · intro h
    exact lookup_of_mem hsorted ((sortKeys_perm fs).mem_iff.mpr (mem_of_lookup h))

/-- A map is its keys and what is found under each of them. -/
theorem perm_of_keys {fs : List (String × β)} {names : List String} (get : String → β)
    (hn : (fs.map Prod.fst).Nodup) (hnames : names.Nodup)
    (hk : ∀ k, k ∈ fs.map Prod.fst ↔ k ∈ names) (hget : ∀ k ∈ names, fs.lookup k = some (get k)) :
    fs.Perm (names.map (fun k => (k, get k))) := by
  have hr : (names.map (fun k => (k, get k))).Nodup :=
    hnames.map (fun _ _ h => (Prod.mk.inj h).1)
  refine (List.perm_ext_iff_of_nodup (List.Nodup.of_map _ hn) hr).mpr ?_
  rintro ⟨k, v⟩
  rw [List.mem_map]
  constructor
  · intro h
    have hmem : k ∈ names := (hk k).mp (List.mem_map.mpr ⟨(k, v), h, rfl⟩)
    have hv := (hget k hmem).symm.trans (lookup_of_mem hn h)
    exact ⟨k, hmem, by rw [Option.some.inj hv]⟩
  · rintro ⟨k', hmem, heq⟩
    obtain ⟨rfl, rfl⟩ := Prod.mk.inj heq
    exact mem_of_lookup (hget _ hmem)

end Switchboard.Text
