import Switchboard.Text.GoJson
import Switchboard.Text.Pieces

namespace Switchboard.Text

namespace Json

/-- What is left of some pieces when `r` is left of their text. -/
def leftOf (ps : List Piece) (r : List Char) : List Piece := ps.drop (ps.length - r.length)

/-- The bytes of some pieces up to where `r` is left of their text. -/
def readOf (ps : List Piece) (r : List Char) : Bytes := bytesOf (ps.take (ps.length - r.length))

/-- A member with the bytes of its value, and what follows it. -/
def rawMember : Nat → List Piece → Option ((String × Bytes) × List Piece)
  | 0, _ => none
  | n + 1, ps =>
    match skip (charsOf ps) with
    | [] => none
    | c :: r =>
      if c = '"' then
        match string r with
        | none => none
        | some (k, r) =>
          match skip r with
          | [] => none
          | c :: r =>
            if c = ':' then
              (value n r).map (fun p => ((k, readOf (leftOf ps (skip r)) p.2), leftOf ps p.2))
            else none
      else none

/-- The members of an object with the bytes of their values, at least one, up to its closing
brace. -/
def rawMembers : Nat → List Piece → Option (List (String × Bytes) × List Piece)
  | 0, _ => none
  | n + 1, ps =>
    match rawMember n ps with
    | none => none
    | some (f, ps) =>
      match skip (charsOf ps) with
      | [] => none
      | c :: r =>
        if c = ',' then (rawMembers n (leftOf ps r)).map (fun p => (f :: p.1, p.2))
        else if c = '}' then some ([f], leftOf ps r)
        else none

/-- The members of the object that some bytes consist of, each with the bytes of its value. -/
def rawTexts (b : Bytes) : List (String × Bytes) :=
  match skip (decodeUtf8 b) with
  | [] => []
  | c :: r =>
    if c = '{' then
      match rawMembers (r.length + 1) (leftOf (pieces b) r) with
      | some (fs, _) => fs
      | none => []
    else []

def rawField (esc : Char → List Char) (f : String × Bytes) : Bytes := utf8 (quote esc f.1 ++ [':']) ++ f.2

def rawFields (esc : Char → List Char) : List (String × Bytes) → Bytes
  | [] => []
  | [f] => rawField esc f
  | f :: g :: fs => rawField esc f ++ 0x2c :: rawFields esc (g :: fs)

/-- An object of which the bytes of the values are given. -/
def rawObject (esc : Char → List Char) (fs : List (String × Bytes)) : Bytes :=
  0x7b :: (rawFields esc fs ++ [0x7d])

/-- A text that is read as a value wherever it stands. -/
structure Reads (cs : List Char) (j : Json) : Prop where
  head : ∃ c r, cs = c :: r ∧ isBlank c = false
  value : ∀ n rest, cs.length ≤ n → Ends rest → Json.value n (cs ++ rest) = some (j, rest)

theorem Reads.skip {cs : List Char} {j : Json} (h : Reads cs j) (rest : List Char) :
    Json.skip (cs ++ rest) = cs ++ rest := by
  obtain ⟨c, r, rfl, hb⟩ := h.head
  exact skip_cons hb _

theorem reads_print {esc : Char → List Char} {j : Json} (h : Over (Faithful esc) j) :
    Reads (print esc j) j := by
  obtain ⟨c, r, hc, hb, -⟩ := print_head h
  exact ⟨⟨c, r, hc, hb⟩, fun n rest hn hr => value_print j n rest h hn hr⟩

theorem leftOf_append (ps qs : List Piece) : leftOf (ps ++ qs) (charsOf qs) = qs := by
  rw [leftOf, List.length_append, charsOf_length, Nat.add_sub_cancel, List.drop_left]

theorem readOf_append (ps qs : List Piece) : readOf (ps ++ qs) (charsOf qs) = bytesOf ps := by
  rw [readOf, List.length_append, charsOf_length, Nat.add_sub_cancel, List.take_left]

theorem leftOf_cons (p : Piece) (ps : List Piece) : leftOf (p :: ps) (charsOf ps) = ps :=
  leftOf_append [p] ps

theorem rawMembers_last {n : Nat} {ps qs : List Piece} {f : String × Bytes} {p : Piece}
    (hf : rawMember n ps = some (f, p :: qs)) (hp : p.1 = '}') :
    rawMembers (n + 1) ps = some ([f], qs) := by
  have hskip : skip (p.1 :: charsOf qs) = '}' :: charsOf qs := by
    rw [hp]
    exact skip_cons (by decide) _
  simp [rawMembers, hf, hskip, leftOf_cons]

theorem rawMembers_more {n : Nat} {ps qs rest : List Piece} {f : String × Bytes}
    {fs : List (String × Bytes)} {p : Piece} (hf : rawMember n ps = some (f, p :: qs)) (hp : p.1 = ',')
    (h : rawMembers n qs = some (fs, rest)) : rawMembers (n + 1) ps = some (f :: fs, rest) := by
  have hskip : skip (p.1 :: charsOf qs) = ',' :: charsOf qs := by
    rw [hp]
    exact skip_cons (by decide) _
  simp [rawMembers, hf, hskip, leftOf_cons, h]

section
variable {esc : Char → List Char}

/-- A member whose value is given by its bytes. -/
def Reading (esc : Char → List Char) (f : String × Bytes) (g : String × Json) : Prop :=
  f.1 = g.1 ∧ Spelled (Faithful esc) f.1 ∧ Reads (decodeUtf8 f.2) g.2

/-- The text before the value of a member. -/
def label (esc : Char → List Char) (key : String) : List Char := quote esc key ++ [':']

theorem skip_label (key : String) (r : List Char) : skip (label esc key ++ r) = label esc key ++ r :=
  skip_cons (by decide) _

theorem rawMember_label {f : String × Bytes} {g : String × Json} (h : Reading esc f g) {n : Nat}
    {qs : List Piece} (hn : (label esc f.1 ++ decodeUtf8 f.2).length ≤ n) (hr : Ends (charsOf qs)) :
    rawMember n (spell (label esc f.1) ++ (pieces f.2 ++ qs)) = some (f, qs) := by
  obtain ⟨k, b⟩ := f
  obtain ⟨k', j⟩ := g
  obtain ⟨rfl, hk, hv⟩ := h
  dsimp only at hk hv hn ⊢
  simp only [label, quote, List.length_append, List.length_cons] at hn
  obtain ⟨m, rfl⟩ : ∃ m, n = m + 1 := ⟨n - 1, by omega⟩
  have hstring := string_quote hk (':' :: (decodeUtf8 b ++ charsOf qs))
  have hskip : skip (charsOf (spell (label esc k) ++ (pieces b ++ qs))) =
      '"' :: (k.toList.flatMap esc ++ '"' :: ':' :: (decodeUtf8 b ++ charsOf qs)) := by
    rw [charsOf_append, charsOf_append, charsOf_spell, charsOf_pieces, skip_label]
    simp [label, quote]
  have hvalue := hv.value m (charsOf qs) (by omega) hr
  have hstart : leftOf (spell (label esc k) ++ (pieces b ++ qs)) (decodeUtf8 b ++ charsOf qs) =
      pieces b ++ qs := by
    rw [← charsOf_pieces b, ← charsOf_append, leftOf_append]
  have hend : leftOf (spell (label esc k) ++ (pieces b ++ qs)) (charsOf qs) = qs := by
    rw [← List.append_assoc, leftOf_append]
  simp only [rawMember, hskip, if_true, hstring, skip_cons (show isBlank ':' = false by decide), hvalue,
    hv.skip, hstart, hend, Option.map_some, readOf_append, bytesOf_pieces]

theorem pieces_rawField (f : String × Bytes) {x : UInt8} (hx : x.toNat < 0x80) (t : Bytes) :
    pieces (rawField esc f ++ x :: t) = spell (label esc f.1) ++ (pieces f.2 ++ pieces (x :: t)) := by
  rw [rawField, List.append_assoc, pieces_spell, pieces_break f.2 hx]
  rfl

theorem decode_rawField (f : String × Bytes) {x : UInt8} (hx : x.toNat < 0x80) (t : Bytes) :
    decodeUtf8 (rawField esc f ++ x :: t) =
      label esc f.1 ++ (decodeUtf8 f.2 ++ Char.ofNat x.toNat :: decodeUtf8 t) := by
  rw [rawField, List.append_assoc, decode_append, decode_break f.2 hx]
  rfl

theorem decode_rawField_end (f : String × Bytes) :
    decodeUtf8 (rawField esc f) = label esc f.1 ++ decodeUtf8 f.2 := decode_append _ _

theorem rawMembers_rawFields {fs : List (String × Bytes)} {gs : List (String × Json)}
    (h : List.Forall₂ (Reading esc) fs gs) (hne : fs ≠ []) {n : Nat}
    (hn : (decodeUtf8 (rawFields esc fs)).length < n) (w : Bytes) :
    rawMembers n (pieces (rawFields esc fs ++ 0x7d :: w)) = some (fs, pieces w) := by
  induction h generalizing n with
  | nil => exact absurd rfl hne
  | cons hf hfs ih =>
    rename_i f g fs gs
    obtain ⟨m, rfl⟩ : ∃ m, n = m + 1 := ⟨n - 1, by omega⟩
    cases hfs with
    | nil =>
      rw [rawFields, decode_rawField_end] at hn
      rw [rawFields, pieces_rawField f (by decide), pieces_ascii (by decide)]
      exact rawMembers_last (rawMember_label hf (by omega) (ends_brace (charsOf (pieces w)))) rfl
    | cons hf' hfs' =>
      rename_i f' g' fs gs
      rw [rawFields, decode_rawField f (by decide), List.length_append, List.length_append,
        List.length_cons] at hn
      rw [rawFields, List.append_assoc, List.cons_append, pieces_rawField f (by decide),
        pieces_ascii (by decide)]
      have hlabel : (label esc f.1 ++ decodeUtf8 f.2).length ≤ m := by
        rw [List.length_append]
        omega
      exact rawMembers_more (rawMember_label hf hlabel (ends_comma (charsOf (pieces _)))) rfl
        (ih (by simp) (by omega))

theorem decode_rawObject (fs : List (String × Bytes)) :
    decodeUtf8 (rawObject esc fs) = '{' :: decodeUtf8 (rawFields esc fs ++ [0x7d]) :=
  decode_break [] (by decide) _

theorem decode_rawFields_end (fs : List (String × Bytes)) :
    (decodeUtf8 (rawFields esc fs)).length < (decodeUtf8 (rawFields esc fs ++ [0x7d])).length := by
  rw [decode_break _ (by decide), List.length_append]
  exact Nat.lt_succ_self _

/-- The members of an object have the bytes they were given. -/
theorem rawTexts_rawObject {fs : List (String × Bytes)} {gs : List (String × Json)}
    (h : List.Forall₂ (Reading esc) fs gs) (hne : fs ≠ []) : rawTexts (rawObject esc fs) = fs := by
  have hmembers := rawMembers_rawFields h hne
    (Nat.lt_succ_of_lt (decode_rawFields_end fs)) []
  have hleft : leftOf (pieces (rawObject esc fs)) (decodeUtf8 (rawFields esc fs ++ [0x7d])) =
      pieces (rawFields esc fs ++ [0x7d]) := by
    rw [rawObject, pieces_ascii (by decide), ← charsOf_pieces, leftOf_cons]
  rw [rawTexts, decode_rawObject, skip_cons (by decide)]
  simp only [if_true, hleft]
  rw [hmembers]

/-- A member with the bytes of its value. -/
def rawOf (esc : Char → List Char) (f : String × Json) : String × Bytes := (f.1, utf8 (print esc f.2))

theorem rawFields_print (f : String × Json) (fs : List (String × Json)) :
    rawFields esc ((f :: fs).map (rawOf esc)) = utf8 (printFields esc (f :: fs)) := by
  have hfield : ∀ f : String × Json, rawField esc (rawOf esc f) = utf8 (printField esc f) := by
    rintro ⟨k, v⟩
    rw [rawField, rawOf, ← utf8_append, List.append_assoc]
    rfl
  induction fs generalizing f with
  | nil => simp [rawFields, hfield, printFields, printRest]
  | cons g gs ih =>
    rw [printFields, printRest_cons, utf8_append, utf8_cons, ← ih, ← hfield]
    rfl

/-- An object is printed with the texts of its values. -/
theorem rawObject_print (fs : List (String × Json)) :
    rawObject esc (fs.map (rawOf esc)) = utf8 (print esc (.obj fs)) := by
  cases fs with
  | nil => rfl
  | cons f fs =>
    rw [rawObject, rawFields_print, print, utf8_append, utf8_cons]
    rfl

theorem reading_print {f : String × Json} (h : OverField (Faithful esc) f) : Reading esc (rawOf esc f) f := by
  obtain ⟨k, v⟩ := f
  refine ⟨rfl, h.1, ?_⟩
  rw [rawOf, decode_utf8]
  exact reads_print h.2

theorem readings_print {fs : List (String × Json)} (h : OverFields (Faithful esc) fs) :
    List.Forall₂ (Reading esc) (fs.map (rawOf esc)) fs := by
  induction fs with
  | nil => exact .nil
  | cons f fs ih => exact .cons (reading_print h.1) (ih h.2)

end

end Json

namespace GoJson

/-- Whether a member is decoded into the field `name`. -/
def decodesInto (fields : List (Field α)) (name key : String) : Bool :=
  (findField fields key).any (fun f => f.name == name)

/-- The bytes of the last member that is decoded into a field, which is what a
`json.RawMessage` is left with. -/
def rawMessage (fields : List (Field α)) (name : String) (b : Bytes) : Bytes :=
  match ((Json.rawTexts b).filter (fun f => decodesInto fields name f.1)).getLast? with
  | some f => f.2
  | none => []

section
variable {fields : List (Field α)} {name key : String} {esc : Char → List Char} {t : Bytes}
  {fs fs' : List (String × Bytes)} {gs : List (String × Json)}

theorem rawMessage_only (h : List.Forall₂ (Json.Reading esc) (fs ++ (key, t) :: fs') gs)
    (hkey : decodesInto fields name key = true) (hfs : ∀ f ∈ fs, decodesInto fields name f.1 = false)
    (hfs' : ∀ f ∈ fs', decodesInto fields name f.1 = false) :
    rawMessage fields name (Json.rawObject esc (fs ++ (key, t) :: fs')) = t := by
  have hnone : ∀ gs : List (String × Bytes), (∀ f ∈ gs, decodesInto fields name f.1 = false) →
      gs.filter (fun f => decodesInto fields name f.1) = [] :=
    fun gs hgs => List.filter_eq_nil_iff.mpr (fun f hf => by simp [hgs f hf])
  have hne : fs ++ (key, t) :: fs' ≠ [] := by simp
  rw [rawMessage, Json.rawTexts_rawObject h hne, List.filter_append, List.filter_cons,
    hnone fs hfs, hnone fs' hfs', if_pos hkey]
  rfl

end

end GoJson

end Switchboard.Text
