import Mathlib

namespace Switchboard.Data

variable {κ β : Type} {w : β → Int} {m : AList (fun _ : κ => β)} {k : κ} {v : β}

/-- What the values of a map weigh together. -/
def weight (w : β → Int) (m : AList (fun _ : κ => β)) : Int := (m.entries.map (fun e => w e.2)).sum

theorem weight_one (m : AList (fun _ : κ => β)) : weight (fun _ => 1) m = m.entries.length := by
  unfold weight
  induction m.entries with
  | nil => rfl
  | cons e l ih =>
    rw [List.map_cons, List.sum_cons, ih, List.length_cons]
    exact Int.add_comm 1 _

variable [DecidableEq κ]

theorem sum_kerase {l : List (Sigma fun _ : κ => β)} (h : l.dlookup k = some v) :
    ((l.kerase k).map (fun e => w e.2)).sum = (l.map (fun e => w e.2)).sum - w v := by
  induction l with
  | nil => cases h
  | cons e l ih =>
    by_cases hk : k = e.1
    · obtain ⟨k', v'⟩ := e
      obtain rfl : k = k' := hk
      rw [List.dlookup_cons_eq] at h
      obtain rfl := Option.some.inj h
      rw [@List.kerase_cons_eq _ _ _ k ⟨k, v'⟩ l rfl, List.map_cons, List.sum_cons]
      dsimp only
      omega
    · obtain ⟨k', v'⟩ := e
      rw [List.dlookup_cons_ne _ _ hk] at h
      rw [List.kerase_cons_ne hk, List.map_cons, List.sum_cons, List.map_cons, List.sum_cons, ih h]
      omega

theorem weight_erase (h : m.lookup k = some v) : weight w (m.erase k) = weight w m - w v :=
  sum_kerase h

theorem erase_absent (h : m.lookup k = none) : m.erase k = m := by
  apply AList.ext
  exact List.kerase_of_notMem_keys (AList.lookup_eq_none.mp h)

theorem weight_insert (m : AList (fun _ : κ => β)) (k : κ) (v : β) :
    weight w (m.insert k v) = weight w (m.erase k) + w v := by
  rw [weight, AList.entries_insert, List.map_cons, List.sum_cons]
  exact Int.add_comm _ _

theorem weight_insert_absent (h : m.lookup k = none) :
    weight w (m.insert k v) = weight w m + w v := by
  rw [weight_insert, erase_absent h]

theorem weight_insert_over {old : β} (h : m.lookup k = some old) :
    weight w (m.insert k v) = weight w m - w old + w v := by
  rw [weight_insert, weight_erase h]

/-- Sums by key, over the keys that are asked for, are the sum over what is under them. -/
theorem sum_by_key {α : Type} {keys : List κ} (hkeys : keys.Nodup) {l : List α} {key : α → κ}
    (hl : ∀ a ∈ l, key a ∈ keys) (p : κ → Bool) (g : α → Int) :
    ((keys.filter p).map (fun k => ((l.filter (fun a => key a = k)).map g).sum)).sum =
      ((l.filter (fun a => p (key a))).map g).sum := by
  induction l with
  | nil => simp
  | cons a l ih =>
    have hone : (keys.filter p).count (key a) = if p (key a) then 1 else 0 := by
      rw [(hkeys.filter p).count]
      simp [List.mem_filter, hl a List.mem_cons_self]
    have hinner : ∀ k, (((a :: l).filter (fun b => key b = k)).map g).sum =
        if k = key a then g a + ((l.filter (fun b => key b = k)).map g).sum
        else ((l.filter (fun b => key b = k)).map g).sum := by
      intro k
      by_cases hk : k = key a
      · simp [hk]
      · simp [hk, Ne.symm hk]
    simp only [hinner, List.sum_map_ite_eq, hone, ih (fun b hb => hl b (List.mem_cons_of_mem _ hb))]
    by_cases hp : p (key a) <;> simp [hp]

end Switchboard.Data
