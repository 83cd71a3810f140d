import Switchboard.Text.Utf8

namespace Switchboard.Text

/-- A character with the bytes it was read from. -/
abbrev Piece := Char × Bytes

/-- Like `decodeFrom`, with the bytes of every character. -/
def piecesFrom : Nat → Bytes → List Piece
  | _, [] => []
  | k + 1, _ :: r => piecesFrom k r
  | 0, a :: r =>
    ((firstChar a.toNat r).1, a :: r.take (firstChar a.toNat r).2) ::
      piecesFrom (firstChar a.toNat r).2 r

/-- The characters of some bytes, whether they are valid UTF-8 or not. -/
def pieces (b : Bytes) : List Piece := piecesFrom 0 b

def charsOf (ps : List Piece) : List Char := ps.map Prod.fst

def bytesOf (ps : List Piece) : Bytes := ps.flatMap Prod.snd

/-- The pieces of a text in UTF-8. -/
def spell (cs : List Char) : List Piece := cs.map (fun c => (c, utf8Char c))

@[simp] theorem charsOf_nil : charsOf [] = [] := rfl

@[simp] theorem charsOf_cons (p : Piece) (ps : List Piece) : charsOf (p :: ps) = p.1 :: charsOf ps := rfl

@[simp] theorem charsOf_append (ps qs : List Piece) : charsOf (ps ++ qs) = charsOf ps ++ charsOf qs :=
  List.map_append

@[simp] theorem bytesOf_nil : bytesOf [] = [] := rfl

@[simp] theorem bytesOf_cons (p : Piece) (ps : List Piece) : bytesOf (p :: ps) = p.2 ++ bytesOf ps := rfl

@[simp] theorem bytesOf_append (ps qs : List Piece) : bytesOf (ps ++ qs) = bytesOf ps ++ bytesOf qs :=
  List.flatMap_append

@[simp] theorem spell_cons (c : Char) (cs : List Char) : spell (c :: cs) = (c, utf8Char c) :: spell cs := rfl

theorem spell_append (cs ds : List Char) : spell (cs ++ ds) = spell cs ++ spell ds := List.map_append

@[simp] theorem charsOf_spell (cs : List Char) : charsOf (spell cs) = cs := by
  simp [charsOf, spell, Function.comp_def]

@[simp] theorem bytesOf_spell (cs : List Char) : bytesOf (spell cs) = utf8 cs := by
  simp [bytesOf, spell, utf8, List.flatMap_map]

theorem charsOf_length (ps : List Piece) : (charsOf ps).length = ps.length := List.length_map _

theorem charsOf_piecesFrom (k : Nat) (b : Bytes) : charsOf (piecesFrom k b) = decodeFrom k b := by
  induction b generalizing k with
  | nil => simp [piecesFrom, decodeFrom]
  | cons a b ih =>
    cases k with
    | zero => rw [piecesFrom, decodeFrom, charsOf_cons, ih]
    | succ k => exact ih k

theorem charsOf_pieces (b : Bytes) : charsOf (pieces b) = decodeUtf8 b := charsOf_piecesFrom 0 b

theorem piecesFrom_drop (k : Nat) (b : Bytes) : piecesFrom k b = pieces (b.drop k) := by
  induction b generalizing k with
  | nil => simp [pieces, piecesFrom]
  | cons a b ih =>
    cases k with
    | zero => rfl
    | succ k => exact ih k

theorem pieces_cons (a : UInt8) (r : Bytes) :
    pieces (a :: r) = ((firstChar a.toNat r).1, a :: r.take (firstChar a.toNat r).2) ::
      pieces (r.drop (firstChar a.toNat r).2) := by
  rw [pieces, piecesFrom, piecesFrom_drop]

/-- Nothing is lost. -/
theorem bytesOf_pieces (b : Bytes) : bytesOf (pieces b) = b := by
  induction hn : b.length using Nat.strongRecOn generalizing b with
  | _ n ih =>
    cases b with
    | nil => rfl
    | cons a r =>
      have hlen : (r.drop (firstChar a.toNat r).2).length < n := by
        rw [List.length_drop, ← hn, List.length_cons]
        omega
      rw [pieces_cons, bytesOf_cons, ih _ hlen _ rfl, List.cons_append, List.take_append_drop]

theorem firstChar_ascii {a : UInt8} (h : a.toNat < 0x80) (r : Bytes) :
    firstChar a.toNat r = (Char.ofNat a.toNat, 0) := by
  rw [firstChar_small (by omega), threeChar_small (by omega), twoChar_small (by omega), oneChar, if_pos h]

theorem pieces_char (c : Char) (r : Bytes) : pieces (utf8Char c ++ r) = (c, utf8Char c) :: pieces r := by
  obtain ⟨a, t, hc, hfirst⟩ := firstChar_char c r
  rw [hc, List.cons_append, pieces_cons, hfirst]
  simp

theorem pieces_spell (cs : List Char) (r : Bytes) : pieces (utf8 cs ++ r) = spell cs ++ pieces r := by
  induction cs with
  | nil => rfl
  | cons c cs ih => rw [utf8_cons, List.append_assoc, pieces_char, ih, spell, spell, List.map_cons, List.cons_append]

theorem pieces_ascii {x : UInt8} (hx : x.toNat < 0x80) (t : Bytes) :
    pieces (x :: t) = (Char.ofNat x.toNat, [x]) :: pieces t := by
  rw [pieces_cons, firstChar_ascii hx]
  rfl

/-- Bytes before an ASCII byte are taken apart by themselves. -/
theorem pieces_break (b : Bytes) {x : UInt8} (hx : x.toNat < 0x80) (t : Bytes) :
    pieces (b ++ x :: t) = pieces b ++ pieces (x :: t) := by
  induction hn : b.length using Nat.strongRecOn generalizing b with
  | _ n ih =>
    cases b with
    | nil => rfl
    | cons a r =>
      have hle := firstChar_length a.toNat r
      have hlen : (r.drop (firstChar a.toNat r).2).length < n := by
        rw [List.length_drop, ← hn, List.length_cons]
        omega
      rw [List.cons_append, pieces_cons, pieces_cons, firstChar_break a.toNat r hx t,
        List.take_append_of_le_length hle, List.drop_append_of_le_length hle, ih _ hlen _ rfl,
        List.cons_append]

end Switchboard.Text
