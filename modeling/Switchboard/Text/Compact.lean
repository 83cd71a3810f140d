import Switchboard.Text.JsonPrefix
import Switchboard.Text.RawJson

namespace Switchboard.Text

namespace GoJson

/-- The characters that are escaped wherever they stand. -/
def isHTML (c : Char) : Bool :=
  c = '<' || c = '>' || c = '&' || c.toNat = 0x2028 || c.toNat = 0x2029

def htmlEscape (c : Char) : List Char := if isHTML c then unicodeEscape c.toNat else [c]

/-- A text of JSON without the blanks between its tokens, escaped for HTML. The first argument
says whether a string has been opened. -/
def squeeze : Bool → List Char → List Char
  | _, [] => []
  | false, c :: cs =>
    if Json.isBlank c then squeeze false cs else htmlEscape c ++ squeeze (c == '"') cs
  | true, [c] => htmlEscape c
  | true, c :: d :: cs =>
    if c = '\\' then c :: htmlEscape d ++ squeeze true cs
    else htmlEscape c ++ squeeze (c != '"') (d :: cs)

/-- The same, with the bytes of every character: those that are kept are not touched, whether
they are valid UTF-8 or not. -/
def squeezePieces : Bool → List Piece → List Piece
  | _, [] => []
  | false, p :: ps =>
    if Json.isBlank p.1 then squeezePieces false ps else htmlPieces p ++ squeezePieces (p.1 == '"') ps
  | true, [p] => htmlPieces p
  | true, p :: q :: ps =>
    if p.1 = '\\' then p :: htmlPieces q ++ squeezePieces true ps
    else htmlPieces p ++ squeezePieces (p.1 != '"') (q :: ps)
where
  htmlPieces (p : Piece) : List Piece := if isHTML p.1 then spell (unicodeEscape p.1.toNat) else [p]

/-- What `json.Marshal` makes of a `json.RawMessage`. -/
def compact (b : Bytes) : Option Bytes :=
  (scan b).map (fun _ => bytesOf (squeezePieces false (pieces b)))

theorem squeezePieces_spell (inside : Bool) (cs : List Char) :
    squeezePieces inside (spell cs) = spell (squeeze inside cs) := by
  have hhtml : ∀ c : Char, squeezePieces.htmlPieces (c, utf8Char c) = spell (htmlEscape c) := by
    intro c
    unfold squeezePieces.htmlPieces htmlEscape
    split <;> rfl
  fun_induction squeeze inside cs with
  | case1 => rfl
  | case2 c cs hb ih => simpa [squeezePieces, hb] using ih
  | case3 c cs hb ih => simp [spell_append, ← ih, ← hhtml, squeezePieces, hb]
  | case4 c => exact hhtml c
  | case5 d cs ih =>
    simp [spell_append, ← ih, ← hhtml, squeezePieces]
  | case6 c d cs hc ih =>
    rw [spell_append, ← ih, ← hhtml]
    simp [squeezePieces, hc]

/-- A character of a string that starts no escape. -/
theorem squeeze_inside {c : Char} (hb : c ≠ '\\') (cs : List Char) :
    squeeze true (c :: cs) = htmlEscape c ++ squeeze (c != '"') cs := by
  cases cs with
  | nil =>
    rw [squeeze]
    cases c != '"' <;> simp [squeeze]
  | cons d cs => rw [squeeze, if_neg hb]

theorem squeeze_string {c : Char} (hb : c ≠ '\\') (hh : isHTML c = false) (cs : List Char) :
    squeeze true (c :: cs) = c :: squeeze (c != '"') cs := by
  rw [squeeze_inside hb, htmlEscape, hh]
  rfl

theorem squeeze_escaped {c : Char} (hh : isHTML c = false) (cs : List Char) :
    squeeze true ('\\' :: c :: cs) = '\\' :: c :: squeeze true cs := by
  simp [squeeze, htmlEscape, hh]

/-- A token that is not a string. -/
theorem squeeze_token {cs : List Char}
    (h : ∀ c ∈ cs, Json.isBlank c = false ∧ isHTML c = false ∧ c ≠ '"') (r : List Char) :
    squeeze false (cs ++ r) = cs ++ squeeze false r := by
  induction cs with
  | nil => rfl
  | cons c cs ih =>
    obtain ⟨hb, hh, hq⟩ := h c List.mem_cons_self
    rw [List.cons_append, squeeze, hb, htmlEscape, hh, beq_false_of_ne hq,
      ih (fun d hd => h d (List.mem_cons_of_mem _ hd))]
    rfl

theorem hexChar_plain (n : Nat) :
    hexChar (n % 16) ≠ '\\' ∧ isHTML (hexChar (n % 16)) = false ∧ (hexChar (n % 16) != '"') = true := by
  have hall : ∀ m < 16, hexChar m ≠ '\\' ∧ isHTML (hexChar m) = false ∧ (hexChar m != '"') = true := by
    decide
  exact hall _ (Nat.mod_lt n (by decide))

theorem squeeze_unicodeEscape (n : Nat) (r : List Char) :
    squeeze true (unicodeEscape n ++ r) = unicodeEscape n ++ squeeze true r := by
  have hstep : ∀ (m : Nat) (cs : List Char),
      squeeze true (hexChar (m % 16) :: cs) = hexChar (m % 16) :: squeeze true cs := by
    intro m cs
    obtain ⟨hb, hh, hq⟩ := hexChar_plain m
    rw [squeeze_string hb hh, hq]
  simp only [unicodeEscape, List.cons_append, List.nil_append]
  rw [squeeze_escaped (by decide), hstep, hstep, hstep, hstep]

theorem squeeze_escape (c : Char) (r : List Char) :
    squeeze true (escape c ++ r) = escape c ++ squeeze true r := by
  unfold escape
  split
  · rename_i h
    refine squeeze_escaped ?_ r
    simp only [Bool.or_eq_true, decide_eq_true_eq] at h
    rcases h with rfl | rfl
    · decide
    · decide
  · rename_i hq
    simp only [Bool.or_eq_true, decide_eq_true_eq, not_or] at hq
    split
    · exact squeeze_escaped (by decide) r
    · split
      · exact squeeze_escaped (by decide) r
      · split
        · exact squeeze_escaped (by decide) r
        · split
          · exact squeeze_escaped (by decide) r
          · split
            · exact squeeze_escaped (by decide) r
            · split
              · exact squeeze_unicodeEscape c.toNat r
              · rename_i h
                simp only [Bool.or_eq_true, decide_eq_true_eq, not_or] at h
                have hh : isHTML c = false := by simp [isHTML, h]
                rw [List.cons_append, List.nil_append, squeeze_string hq.2 hh, bne_iff_ne.mpr hq.1]
                rfl

theorem squeeze_quote (s : String) (r : List Char) :
    squeeze false (Json.quote escape s ++ r) = Json.quote escape s ++ squeeze false r := by
  have hbody : ∀ cs : List Char, squeeze true (cs.flatMap escape ++ '"' :: r) =
      cs.flatMap escape ++ '"' :: squeeze false r := by
    intro cs
    induction cs with
    | nil => exact squeeze_string (by decide) (by decide) r
    | cons c cs ih =>
      rw [List.flatMap_cons, List.append_assoc, squeeze_escape, ih, List.append_assoc]
  have hopen : ∀ cs, squeeze false ('"' :: cs) = '"' :: squeeze true cs := fun cs => rfl
  simp only [Json.quote, List.cons_append, List.append_assoc, List.nil_append]
  rw [hopen, hbody]

theorem squeeze_mark {c : Char} (h : c ∈ Json.marks) (hq : c ≠ '"') (r : List Char) :
    squeeze false (c :: r) = c :: squeeze false r := by
  have hall : ∀ c ∈ Json.marks, Json.isBlank c = false ∧ isHTML c = false := by decide
  have htoken : ∀ d ∈ [c], Json.isBlank d = false ∧ isHTML d = false ∧ d ≠ '"' := by
    simpa [hq] using hall c h
  exact squeeze_token htoken r

theorem numeral_token {lit : List Char} (h : Json.Numeral lit) :
    ∀ c ∈ lit, Json.isBlank c = false ∧ isHTML c = false ∧ c ≠ '"' := by
  have hall : ∀ c ∈ Json.marks, Json.isBlank c = false ∧ isHTML c = false := by decide
  intro c hc
  refine ⟨(hall c (h.marked c hc)).1, (hall c (h.marked c hc)).2, ?_⟩
  rintro rfl
  have hdigits : ∀ ds, Json.Digits ds → '"' ∉ ds := fun ds hd hq => absurd (hd.2 _ hq) (by decide)
  obtain ⟨sign, int, frac, exp, rfl, hs, hi, -, hf, he⟩ := h.parts
  simp only [List.mem_append] at hc
  rcases hc with hc | hc | hc | hc
  · rcases hs with rfl | rfl
    · cases hc
    · exact absurd hc (by decide)
  · exact hdigits int hi hc
  · cases hf with
    | none => cases hc
    | digits ds hd => exact hdigits ds hd (List.mem_of_ne_of_mem (by decide) hc)
  · cases he with
    | none => cases hc
    | digits e sign ds he hs hd =>
      rcases List.mem_cons.mp hc with rfl | hc
      · rcases he with he | he <;> exact absurd he (by decide)
      · rcases List.mem_append.mp hc with hc | hc
        · rcases hs with rfl | rfl | rfl <;> exact absurd hc (by decide)
        · exact hdigits ds hd hc

mutual
/-- What is printed compactly is left as it is. -/
theorem squeeze_print (j : Json) (h : Json.Over (fun _ => True) j) (r : List Char) :
    squeeze false (Json.print escape j ++ r) = Json.print escape j ++ squeeze false r := by
  match j, h with
  | .null, _ => exact squeeze_token (by decide) r
  | .bool true, _ => exact squeeze_token (by decide) r
  | .bool false, _ => exact squeeze_token (by decide) r
  | .num lit, h => exact squeeze_token (fun c hc => numeral_token h c hc) r
  | .str s, _ => exact squeeze_quote s r
  | .arr [], _ => exact squeeze_token (by decide) r
  | .arr (x :: xs), h =>
    simp only [Json.print, Json.printElems, List.cons_append, List.append_assoc, List.nil_append]
    rw [squeeze_mark (by decide) (by decide), squeeze_print x h.1, squeeze_printMore xs h.2,
      squeeze_mark (by decide) (by decide)]
  | .obj [], _ => exact squeeze_token (by decide) r
  | .obj (f :: fs), h =>
    simp only [Json.print, Json.printFields, List.cons_append, List.append_assoc, List.nil_append]
    rw [squeeze_mark (by decide) (by decide), squeeze_printField f h.1, squeeze_printRest fs h.2,
      squeeze_mark (by decide) (by decide)]
termination_by structural j
theorem squeeze_printMore (xs : List Json) (h : Json.OverElems (fun _ => True) xs) (r : List Char) :
    squeeze false (Json.printMore escape xs ++ r) = Json.printMore escape xs ++ squeeze false r := by
  match xs, h with
  | [], _ => rfl
  | x :: xs, h =>
    simp only [Json.printMore, List.cons_append, List.append_assoc]
    rw [squeeze_mark (by decide) (by decide), squeeze_print x h.1, squeeze_printMore xs h.2]
termination_by structural xs
theorem squeeze_printRest (fs : List (String × Json)) (h : Json.OverFields (fun _ => True) fs)
    (r : List Char) :
    squeeze false (Json.printRest escape fs ++ r) = Json.printRest escape fs ++ squeeze false r := by
  match fs, h with
  | [], _ => rfl
  | f :: fs, h =>
    simp only [Json.printRest, List.cons_append, List.append_assoc]
    rw [squeeze_mark (by decide) (by decide), squeeze_printField f h.1, squeeze_printRest fs h.2]
termination_by structural fs
theorem squeeze_printField (f : String × Json) (h : Json.OverField (fun _ => True) f) (r : List Char) :
    squeeze false (Json.printField escape f ++ r) = Json.printField escape f ++ squeeze false r := by
  match f, h with
  | (key, v), h =>
    simp only [Json.printField, List.cons_append, List.append_assoc]
    rw [squeeze_quote, squeeze_mark (by decide) (by decide), squeeze_print v h.2]
termination_by structural f
end

/-- A value that was marshalled is compact, and has nothing left to escape. -/
theorem compact_marshal {j : Json} (h : Json.Over (fun _ => True) j) (hd : j.depth ≤ maxNestingDepth) :
    compact (marshal j) = some (marshal j) := by
  have hsqueeze := squeeze_print j h []
  rw [List.append_nil, show squeeze false [] = [] from rfl, List.append_nil] at hsqueeze
  have hpieces := pieces_spell (Json.print escape j) []
  rw [List.append_nil, show pieces [] = [] from rfl, List.append_nil] at hpieces
  rw [compact, scan_marshal h hd, marshal, hpieces, squeezePieces_spell, hsqueeze, bytesOf_spell]
  rfl

end GoJson

end Switchboard.Text
