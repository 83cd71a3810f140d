import Switchboard.Text.GoJson

namespace Switchboard.Text

theorem Json.intLit_length {n : Int} (h : n.natAbs < 10 ^ 19) : (Json.intLit n).length ≤ 20 := by
  have hd : (Nat.toDigits 10 n.natAbs).length ≤ 19 :=
    (Nat.length_toDigits_le_iff (by decide) (by decide)).mpr h
  rw [Json.intLit_eq, List.length_append]
  split
  · simp only [List.length_cons, List.length_nil]
    omega
  · simp only [List.length_nil]
    omega

theorem Json.quote_length (s : String) :
    (Json.quote (fun c => [c]) s).length = s.toList.length + 2 := by
  rw [Json.quote_verbatim (fun _ _ => rfl)]
  simp

namespace GoJson

/-- A text of at most `n` characters, none of which is escaped. -/
structure Short (n : Nat) (s : String) : Prop where
  plain : Json.Spelled PlainChar s
  length : s.toList.length ≤ n

theorem Short.append {m n : Nat} {s t : String} (hs : Short m s) (ht : Short n t) :
    Short (m + n) (s ++ t) := by
  refine ⟨fun c hc => ?_, ?_⟩
  · rw [String.toList_append] at hc
    rcases List.mem_append.mp hc with hc | hc
    · exact hs.plain c hc
    · exact ht.plain c hc
  · rw [String.toList_append, List.length_append]
    exact Nat.add_le_add hs.length ht.length

/-- A value whose text takes at most `n` characters, none of them escaped. -/
structure Within (n : Nat) (j : Json) : Prop where
  plain : Json.Over PlainChar j
  length : (Json.plainText j).length ≤ n

theorem Within.mono {m n : Nat} {j : Json} (h : Within m j) (hmn : m ≤ n) : Within n j :=
  ⟨h.plain, h.length.trans hmn⟩

theorem Within.str {n : Nat} {s : String} (h : Short n s) : Within (n + 2) (.str s) := by
  refine ⟨h.plain, ?_⟩
  have hlen := h.length
  rw [Json.plainText, Json.print, Json.quote_length]
  omega

theorem Within.bool (b : Bool) : Within 5 (.bool b) := by
  refine ⟨trivial, ?_⟩
  cases b <;> decide

theorem Within.int {z : Int} (h : z.natAbs < 10 ^ 19) : Within 20 (Json.int z) :=
  ⟨Json.numeral_int z, Json.intLit_length h⟩

theorem Within.arr {n : Nat} {xs : List Json} (h : ∀ x ∈ xs, Within n x) :
    Within ((n + 1) * xs.length + 2) (.arr xs) := by
  refine ⟨?_, ?_⟩
  · show Json.OverElems PlainChar xs
    induction xs with
    | nil => trivial
    | cons x xs ih =>
      obtain ⟨hx, hxs⟩ := List.forall_mem_cons.mp h
      exact ⟨hx.plain, ih hxs⟩
  · have helems := @Json.printElems_length (fun c => [c]) n xs (fun x hx => (h x hx).length)
    rw [Json.plainText, Json.print, List.length_append, List.length_cons, List.length_singleton]
    omega

/-- The room that a member takes, with the comma behind it. -/
def room (f : String × Json) : Nat := (Json.printField (fun c => [c]) f).length + 1

/-- Members that take at most `n` characters together. -/
structure Members (n : Nat) (fs : List (String × Json)) : Prop where
  plain : ∀ f ∈ fs, Json.OverField PlainChar f
  length : (fs.map room).sum ≤ n

theorem room_le {a b : Nat} {f : String × Json} (hk : Short a f.1) (hv : Within b f.2) :
    room f ≤ a + b + 4 := by
  obtain ⟨k, v⟩ := f
  have hklen : k.toList.length ≤ a := hk.length
  have hvlen : (Json.print (fun c => [c]) v).length ≤ b := hv.length
  rw [room, Json.printField, List.length_append, List.length_cons, Json.quote_length]
  omega

/-- Members of one size. -/
theorem Members.each {a b : Nat} {fs : List (String × Json)}
    (h : ∀ f ∈ fs, Short a f.1 ∧ Within b f.2) : Members (fs.length * (a + b + 4)) fs := by
  refine ⟨fun f hf => ?_, ?_⟩
  · obtain ⟨hk, hv⟩ := h f hf
    cases f
    exact ⟨hk.plain, hv.plain⟩
  · have hsum := List.sum_le_card_nsmul (fs.map room) (a + b + 4) (fun n hn => ?_)
    · rwa [List.length_map, smul_eq_mul] at hsum
    · obtain ⟨f, hf, rfl⟩ := List.mem_map.mp hn
      exact room_le (h f hf).1 (h f hf).2

theorem Members.option {a b : Nat} {p : Prop} [Decidable p] {k : String} {v : Json} (hk : Short a k)
    (hv : Within b v) : Members (a + b + 4) (if p then [(k, v)] else []) := by
  split
  · refine ⟨fun f hf => ?_, ?_⟩
    · obtain rfl := List.mem_singleton.mp hf
      exact ⟨hk.plain, hv.plain⟩
    · rw [List.map_singleton, List.sum_singleton]
      exact room_le hk hv
  · exact ⟨fun f hf => (by cases hf), Nat.zero_le _⟩

theorem Members.append {m n : Nat} {fs gs : List (String × Json)} (hf : Members m fs)
    (hg : Members n gs) : Members (m + n) (fs ++ gs) := by
  refine ⟨List.forall_mem_append.mpr ⟨hf.plain, hg.plain⟩, ?_⟩
  rw [List.map_append, List.sum_append]
  exact Nat.add_le_add hf.length hg.length

theorem Members.mono {m n : Nat} {fs : List (String × Json)} (h : Members m fs) (hmn : m ≤ n) :
    Members n fs :=
  ⟨h.plain, h.length.trans hmn⟩

theorem printRest_room (fs : List (String × Json)) :
    (Json.printRest (fun c => [c]) fs).length = (fs.map room).sum := by
  induction fs with
  | nil => rfl
  | cons f fs ih =>
    rw [Json.printRest, List.length_append, List.length_cons, ih, List.map_cons, List.sum_cons, room]

theorem Members.obj {n : Nat} {fs : List (String × Json)} (h : Members n fs) :
    Within (n + 2) (.obj fs) := by
  refine ⟨overFields_of_forall h.plain, ?_⟩
  have hfields : (Json.printFields (fun c => [c]) fs).length ≤ (fs.map room).sum := by
    cases fs with
    | nil => exact Nat.zero_le _
    | cons f fs =>
      rw [← printRest_room, Json.printRest_cons, List.length_cons]
      exact Nat.le_succ _
  have hlen := h.length
  rw [Json.plainText, Json.print, List.length_append, List.length_cons, List.length_singleton]
  omega

theorem Members.map {n : Nat} {fs : List (String × Json)} (h : Members n fs) :
    Within (n + 2) (map fs) := by
  have hperm := sortKeys_perm fs
  have hsorted : Members n (sortKeys fs) := by
    refine ⟨fun f hf => h.plain f (hperm.mem_iff.mp hf), ?_⟩
    rw [(hperm.map room).sum_eq]
    exact h.length
  exact hsorted.obj

theorem Within.marshal {n : Nat} {j : Json} (h : Within n j) : (marshal j).length ≤ n := by
  rw [marshal_plain h.plain,
    utf8_length_ascii (Json.plain_ascii _ (h.plain.mono (fun _ hc => hc.ascii)))]
  exact h.length

end GoJson

end Switchboard.Text
