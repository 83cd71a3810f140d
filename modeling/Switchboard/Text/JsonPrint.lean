import Switchboard.Text.JsonRead

namespace Switchboard.Text.Json

def quote (esc : Char → List Char) (s : String) : List Char :=
  '"' :: s.toList.flatMap esc ++ ['"']

mutual
/-- The compact text of a value; `esc` writes one character of a string. -/
def print (esc : Char → List Char) : Json → List Char
  | .null => ['n', 'u', 'l', 'l']
  | .bool b => if b then ['t', 'r', 'u', 'e'] else ['f', 'a', 'l', 's', 'e']
  | .num lit => lit
  | .str s => quote esc s
  | .arr xs => '[' :: printElems esc xs ++ [']']
  | .obj fs => '{' :: printFields esc fs ++ ['}']
termination_by structural x => x
def printElems (esc : Char → List Char) : List Json → List Char
  | [] => []
  | x :: xs => print esc x ++ printMore esc xs
termination_by structural x => x
def printMore (esc : Char → List Char) : List Json → List Char
  | [] => []
  | x :: xs => ',' :: print esc x ++ printMore esc xs
termination_by structural x => x
def printFields (esc : Char → List Char) : List (String × Json) → List Char
  | [] => []
  | f :: fs => printField esc f ++ printRest esc fs
termination_by structural x => x
def printRest (esc : Char → List Char) : List (String × Json) → List Char
  | [] => []
  | f :: fs => ',' :: printField esc f ++ printRest esc fs
termination_by structural x => x
def printField (esc : Char → List Char) : String × Json → List Char
  | (k, v) => quote esc k ++ ':' :: print esc v
termination_by structural x => x
end

/-- The decimal literal of an integer. -/
def intLit (n : Int) : List Char :=
  if n < 0 then '-' :: Nat.toDigits 10 n.natAbs else Nat.toDigits 10 n.natAbs

def int (n : Int) : Json := .num (intLit n)

/-- The integer a literal denotes, if it has neither fraction nor exponent. -/
def intOf (lit : List Char) : Option Int :=
  let (sign, ds) := minus lit
  if ds ≠ [] ∧ ds.all Char.isDigit then
    let n : Int := Nat.ofDigitChars 10 ds 0
    some (if sign = [] then n else -n)
  else none

/-- The reader gets the character back from what the writer wrote for it. -/
def Faithful (esc : Char → List Char) (c : Char) : Prop :=
  ∀ r, stringUnits (esc c ++ r) = (stringUnits r).map (fun p => (c.toNat :: p.1, p.2))

def Spelled (P : Char → Prop) (s : String) : Prop := ∀ c ∈ s.toList, P c

def Digits (ds : List Char) : Prop := ds ≠ [] ∧ ∀ c ∈ ds, c.isDigit = true

inductive Fraction : List Char → Prop where
  | none : Fraction []
  | digits (ds : List Char) (h : Digits ds) : Fraction ('.' :: ds)

inductive Exponent : List Char → Prop where
  | none : Exponent []
  | digits (c : Char) (sign ds : List Char) (hc : c = 'e' ∨ c = 'E')
      (hs : sign = [] ∨ sign = ['+'] ∨ sign = ['-']) (h : Digits ds) : Exponent (c :: (sign ++ ds))

/-- The literal of a number, part by part. -/
structure Numeral (lit : List Char) : Prop where
  parts : ∃ sign int frac exp, lit = sign ++ (int ++ (frac ++ exp)) ∧ (sign = [] ∨ sign = ['-']) ∧
    Digits int ∧ ¬(int.head? = some '0' ∧ 1 < int.length) ∧ Fraction frac ∧ Exponent exp

mutual
/-- Numbers are numerals, and every string is spelled with characters of `P`. -/
def Over (P : Char → Prop) : Json → Prop
  | .null => True
  | .bool _ => True
  | .num lit => Numeral lit
  | .str s => Spelled P s
  | .arr xs => OverElems P xs
  | .obj fs => OverFields P fs
termination_by structural x => x
def OverElems (P : Char → Prop) : List Json → Prop
  | [] => True
  | x :: xs => Over P x ∧ OverElems P xs
termination_by structural x => x
def OverFields (P : Char → Prop) : List (String × Json) → Prop
  | [] => True
  | f :: fs => OverField P f ∧ OverFields P fs
termination_by structural x => x
def OverField (P : Char → Prop) : String × Json → Prop
  | (k, v) => Spelled P k ∧ Over P v
termination_by structural x => x
end

theorem char_not_surrogate (c : Char) : isHigh c.toNat = false ∧ isLow c.toNat = false := by
  have hv : c.toNat < 0xD800 ∨ 0xDFFF < c.toNat ∧ c.toNat < 0x110000 := c.valid
  simp only [isHigh, isLow, Bool.and_eq_false_iff, decide_eq_false_iff_not]
  omega

theorem join_chars (cs : List Char) : joinUnits (cs.map Char.toNat) = cs := by
  induction cs with
  | nil => rfl
  | cons c cs ih =>
    obtain ⟨hh, hl⟩ := char_not_surrogate c
    cases cs with
    | nil => simp [joinUnits, hh, hl, Char.ofNat_toNat]
    | cons d cs =>
      simp only [List.map_cons] at ih ⊢
      simp [joinUnits, hh, hl, Char.ofNat_toNat, ih]

theorem units_quote (r : List Char) : stringUnits ('"' :: r) = some ([], r) := by
  rw [stringUnits.eq_def]
  simp

theorem units_plain {c : Char} (hq : c ≠ '"') (hb : c ≠ '\\') (h : 0x20 ≤ c.toNat) :
    stringUnits (c :: r) = (stringUnits r).map (fun p => (c.toNat :: p.1, p.2)) := by
  rw [stringUnits.eq_def]
  simp [hq, hb, Nat.not_lt.mpr h]

theorem units_simple {e : Char} (hu : e ≠ 'u') (h : simpleEscape e = some n) :
    stringUnits ('\\' :: e :: r) = (stringUnits r).map (fun p => (n :: p.1, p.2)) := by
  rw [stringUnits.eq_def]
  simp [hu, h]

theorem units_hex {w x y z : Char} (h : hex4 w x y z = some n) :
    stringUnits ('\\' :: 'u' :: w :: x :: y :: z :: r) =
      (stringUnits r).map (fun p => (n :: p.1, p.2)) := by
  rw [stringUnits.eq_def]
  simp [h]

theorem units_escaped {esc : Char → List Char} (cs : List Char) (h : ∀ c ∈ cs, Faithful esc c)
    (r : List Char) : stringUnits (cs.flatMap esc ++ '"' :: r) = some (cs.map Char.toNat, r) := by
  induction cs with
  | nil => simpa using units_quote r
  | cons c cs ih =>
    have ih := ih (fun d hd => h d (List.mem_cons_of_mem _ hd))
    have hc := h c List.mem_cons_self
    rw [List.flatMap_cons, List.append_assoc, hc, ih]
    rfl

theorem string_quote {esc : Char → List Char} {s : String} (h : Spelled (Faithful esc) s) (r : List Char) :
    string (s.toList.flatMap esc ++ '"' :: r) = some (s, r) := by
  simp [string, units_escaped _ h, join_chars, String.ofList_toList]

theorem toDigits_head (n : Nat) (h : (Nat.toDigits 10 n).head? = some '0') : n = 0 := by
  induction n using Nat.strongRecOn with
  | _ n ih =>
    by_cases hn : n < 10
    · rw [Nat.toDigits_of_lt_base hn] at h
      have hz : n.digitChar = '0' := by simpa using h
      have hall : ∀ m < 10, Nat.digitChar m = '0' → m = 0 := by decide
      exact hall n hn hz
    · rw [Nat.toDigits_of_base_le (by omega) (by omega), List.head?_append_of_ne_nil _ (by simp)] at h
      have := ih (n / 10) (by omega) h
      omega

/-- What may follow a value inside a compact text. -/
def Ends (r : List Char) : Prop := ∀ c, r.head? = some c → c = ',' ∨ c = ']' ∨ c = '}'

/-- A text that does not go on with a digit. -/
def Digitless (r : List Char) : Prop := ∀ c, r.head? = some c → c.isDigit = false

theorem Ends.digitless {r : List Char} (h : Ends r) : Digitless r := by
  intro c hc
  rcases h c hc with rfl | rfl | rfl <;> decide

theorem digitless_cons {c : Char} (h : c.isDigit = false) (r : List Char) : Digitless (c :: r) := by
  intro d hd
  obtain rfl := Option.some.inj hd
  exact h

theorem span_digits {ds r : List Char} (hd : ∀ c ∈ ds, c.isDigit = true) (hr : Digitless r) :
    (ds ++ r).span Char.isDigit = (ds, r) := by
  have hrest : r.takeWhile Char.isDigit = [] ∧ r.dropWhile Char.isDigit = r := by
    cases r with
    | nil => exact ⟨rfl, rfl⟩
    | cons c r =>
      have hc : c.isDigit = false := hr c rfl
      simp [List.takeWhile, List.dropWhile, hc]
  rw [List.span_eq_takeWhile_dropWhile, List.takeWhile_append_of_pos hd,
    List.dropWhile_append_of_pos hd, hrest.1, hrest.2, List.append_nil]

theorem digits_of_span {cs ds r : List Char} (h : cs.span Char.isDigit = (ds, r)) (hne : ds ≠ []) :
    Digits ds := by
  rw [List.span_eq_takeWhile_dropWhile] at h
  obtain ⟨rfl, -⟩ := Prod.mk.inj h
  exact ⟨hne, fun c hc => List.mem_takeWhile_imp hc⟩

theorem Exponent.digitless {exp r : List Char} (h : Exponent exp) (hr : Ends r) : Digitless (exp ++ r) := by
  cases h with
  | none => exact hr.digitless
  | digits c sign ds hc =>
    refine digitless_cons ?_ _
    rcases hc with rfl | rfl <;> decide

theorem Fraction.digitless {frac r : List Char} (h : Fraction frac) (hr : Digitless r) : Digitless (frac ++ r) := by
  cases h with
  | none => exact hr
  | digits ds => exact digitless_cons (by decide) _

/-- Neither a digit nor a point follows. -/
theorem Exponent.head {exp r : List Char} (h : Exponent exp) (hr : Ends r) :
    ∀ c, (exp ++ r).head? = some c → c ≠ '.' := by
  intro c hc
  cases h with
  | none => rcases hr c hc with rfl | rfl | rfl <;> decide
  | digits d sign ds hd =>
    obtain rfl : d = c := Option.some.inj hc
    rcases hd with rfl | rfl <;> decide

theorem fraction_read {frac r : List Char} (h : Fraction frac) (hr : Digitless r)
    (hp : ∀ c, r.head? = some c → c ≠ '.') : fraction (frac ++ r) = some (frac, r) := by
  cases h with
  | none =>
    cases r with
    | nil => rfl
    | cons c r =>
      have hc : c ≠ '.' := hp c rfl
      rw [List.nil_append]
      unfold fraction
      split
      · rename_i heq
        exact absurd (List.cons.inj heq).1 hc
      · rfl
  | digits ds hd =>
    rw [List.cons_append, fraction, span_digits hd.2 hr]
    simp [hd.1]

theorem exponent_read {exp r : List Char} (h : Exponent exp) (hr : Ends r) :
    exponent (exp ++ r) = some (exp, r) := by
  cases h with
  | none =>
    cases r with
    | nil => rfl
    | cons c r =>
      rcases hr c rfl with rfl | rfl | rfl <;> rfl
  | digits c sign ds hc hs hd =>
    have hspan := span_digits hd.2 hr.digitless
    obtain ⟨d, ds', rfl⟩ : ∃ d ds', ds = d :: ds' := List.exists_cons_of_ne_nil hd.1
    have hdigit : d.isDigit = true := hd.2 d List.mem_cons_self
    have hplus : d ≠ '+' := by
      rintro rfl
      simp at hdigit
    have hminus : d ≠ '-' := by
      rintro rfl
      simp at hdigit
    rw [List.cons_append] at hspan
    rcases hs with rfl | rfl | rfl
    · simp only [List.nil_append, List.cons_append, exponent, if_pos hc]
      split
      · rename_i heq
        exact absurd (List.cons.inj heq).1 hplus
      · rename_i heq
        exact absurd (List.cons.inj heq).1 hminus
      · simp only [hspan]
        rw [if_neg (by simp)]
        rfl
    · simp only [List.cons_append, List.nil_append, exponent, if_pos hc, hspan]
      rw [if_neg (by simp)]
    · simp only [List.cons_append, List.nil_append, exponent, if_pos hc, hspan]
      rw [if_neg (by simp)]

theorem fraction_of_read {cs frac r : List Char} (h : fraction cs = some (frac, r)) : Fraction frac := by
  unfold fraction at h
  split at h
  · rename_i r' 
    cases hs : r'.span Char.isDigit with
    | mk ds rest =>
      simp only [hs] at h
      split at h
      · cases h
      · rename_i hne
        obtain ⟨rfl, -⟩ := Prod.mk.inj (Option.some.inj h)
        exact .digits ds (digits_of_span hs hne)
  · obtain ⟨rfl, -⟩ := Prod.mk.inj (Option.some.inj h)
    exact .none

theorem exponent_of_read {cs exp r : List Char} (h : exponent cs = some (exp, r)) : Exponent exp := by
  unfold exponent at h
  split at h
  · rename_i c cs'
    split at h
    · rename_i hc
      split at h
      rename_i sign rest hsign
      have hs : sign = [] ∨ sign = ['+'] ∨ sign = ['-'] := by
        split at hsign
        · obtain ⟨rfl, -⟩ := Prod.mk.inj hsign
          exact .inr (.inl rfl)
        · obtain ⟨rfl, -⟩ := Prod.mk.inj hsign
          exact .inr (.inr rfl)
        · obtain ⟨rfl, -⟩ := Prod.mk.inj hsign
          exact .inl rfl
      cases hspan : rest.span Char.isDigit with
      | mk ds rest' =>
        simp only [hspan] at h
        split at h
        · cases h
        · rename_i hne
          obtain ⟨rfl, -⟩ := Prod.mk.inj (Option.some.inj h)
          exact .digits c sign ds hc hs (digits_of_span hspan hne)
    · obtain ⟨rfl, -⟩ := Prod.mk.inj (Option.some.inj h)
      exact .none
  · obtain ⟨rfl, -⟩ := Prod.mk.inj (Option.some.inj h)
    exact .none

theorem toDigits_digits (n : Nat) : ∀ c ∈ Nat.toDigits 10 n, c.isDigit = true :=
  fun _ hc => Nat.isDigit_of_mem_toDigits (by decide) (by decide) hc

theorem toDigits_shape (n : Nat) :
    ¬ (Nat.toDigits 10 n = [] ∨
      ((Nat.toDigits 10 n).head? = some '0' ∧ 1 < (Nat.toDigits 10 n).length)) := by
  rintro (h | ⟨h, hl⟩)
  · exact Nat.toDigits_ne_nil h
  · rw [toDigits_head n h] at hl
    simp at hl

/-- No digit string starts with a sign. -/
theorem toDigits_cons (n : Nat) : ∃ c cs, Nat.toDigits 10 n = c :: cs ∧ c.isDigit = true := by
  cases h : Nat.toDigits 10 n with
  | nil => exact absurd h Nat.toDigits_ne_nil
  | cons c cs => exact ⟨c, cs, rfl, toDigits_digits n c (by simp [h])⟩

theorem minus_intLit (n : Int) (r : List Char) :
    minus (intLit n ++ r) = (if n < 0 then ['-'] else [], Nat.toDigits 10 n.natAbs ++ r) := by
  obtain ⟨c, cs, he, hc⟩ := toDigits_cons n.natAbs
  have hm : c ≠ '-' := by
    rintro rfl
    simp at hc
  unfold intLit
  split
  · simp [minus]
  · rw [he, List.cons_append, minus, if_neg hm]

theorem intLit_eq (n : Int) :
    intLit n = (if n < 0 then ['-'] else []) ++ Nat.toDigits 10 n.natAbs := by
  unfold intLit
  split <;> rfl

theorem numeral_int (n : Int) : Numeral (intLit n) := by
  refine ⟨⟨if n < 0 then ['-'] else [], Nat.toDigits 10 n.natAbs, [], [], ?_, ?_, ?_, ?_, .none, .none⟩⟩
  · simpa using intLit_eq n
  · split
    · exact .inr rfl
    · exact .inl rfl
  · exact ⟨Nat.toDigits_ne_nil, toDigits_digits _⟩
  · exact fun h => toDigits_shape n.natAbs (.inr h)

theorem minus_read {sign int : List Char} (hs : sign = [] ∨ sign = ['-']) (hi : Digits int)
    (r : List Char) : minus (sign ++ (int ++ r)) = (sign, int ++ r) := by
  obtain ⟨d, ds, rfl⟩ : ∃ d ds, int = d :: ds := List.exists_cons_of_ne_nil hi.1
  have hd : d ≠ '-' := by
    rintro rfl
    have hdigit := hi.2 '-' List.mem_cons_self
    simp at hdigit
  rcases hs with rfl | rfl
  · simp [minus, hd]
  · simp [minus]

theorem number_read {lit r : List Char} (h : Numeral lit) (hr : Ends r) :
    number (lit ++ r) = some (lit, r) := by
  obtain ⟨sign, int, frac, exp, rfl, hs, hi, hz, hf, he⟩ := h.parts
  have hshape : ¬(int = [] ∨ (int.head? = some '0' ∧ 1 < int.length)) := by
    rintro (hnil | hzero)
    · exact hi.1 hnil
    · exact hz hzero
  have hrest := he.digitless hr
  simp only [List.append_assoc, number, minus_read hs hi, span_digits hi.2 (hf.digitless hrest), hshape,
    if_false, fraction_read hf hrest (he.head hr), exponent_read he hr, bind, Option.bind, pure]

theorem numeral_of_number {cs lit r : List Char} (h : number cs = some (lit, r)) : Numeral lit := by
  unfold number at h
  simp only [bind, Option.bind, pure] at h
  split at h
  · cases h
  · rename_i hshape
    rw [not_or] at hshape
    split at h
    · cases h
    · rename_i hfrac
      dsimp only at h
      split at h
      · cases h
      · rename_i hexp
        dsimp only at h
        obtain ⟨rfl, -⟩ := Prod.mk.inj (Option.some.inj h)
        refine ⟨⟨(minus cs).1, ((minus cs).2.span Char.isDigit).1, _, _, by simp only [List.append_assoc],
          ?_, ?_, hshape.2, fraction_of_read hfrac, exponent_of_read hexp⟩⟩
        · cases cs with
          | nil => exact .inl rfl
          | cons c cs =>
            by_cases hc : c = '-'
            · exact .inr (by simp [minus, hc])
            · exact .inl (by simp [minus, hc])
        · exact digits_of_span rfl hshape.1

theorem intOf_intLit (n : Int) : intOf (intLit n) = some n := by
  have hall : (Nat.toDigits 10 n.natAbs).all Char.isDigit = true :=
    List.all_eq_true.mpr (toDigits_digits _)
  have hm := minus_intLit n []
  simp only [List.append_nil] at hm
  simp only [intOf, hm, ne_eq, Nat.toDigits_ne_nil, not_false_eq_true, hall, and_self, if_true,
    Nat.ofDigitChars_ten_toDigits, Option.some.injEq]
  by_cases hn : n < 0
  · rw [if_pos hn, if_neg (List.cons_ne_nil _ _)]
    omega
  · rw [if_neg hn, if_pos rfl]
    omega

theorem Numeral.head {lit : List Char} (h : Numeral lit) :
    ∃ c r, lit = c :: r ∧ (c = '-' ∨ c.isDigit = true) := by
  obtain ⟨sign, int, frac, exp, rfl, hs, hi, -⟩ := h.parts
  obtain ⟨d, ds, rfl⟩ : ∃ d ds, int = d :: ds := List.exists_cons_of_ne_nil hi.1
  rcases hs with rfl | rfl
  · exact ⟨d, _, rfl, .inr (hi.2 d List.mem_cons_self)⟩
  · exact ⟨'-', _, rfl, .inl rfl⟩

/-- A number is told apart from every other value by its first character. -/
theorem sign_or_digit {c : Char} (h : c = '-' ∨ c.isDigit = true) :
    isBlank c = false ∧ c ∉ ['{', '[', '"', 'n', 't', 'f', ']', '}'] := by
  have hd : ∀ d ∈ ['{', '[', '"', 'n', 't', 'f', ']', '}', ' ', '\t', '\n', '\r'],
      d ≠ '-' ∧ d.isDigit = false := by decide
  have hne : ∀ d ∈ ['{', '[', '"', 'n', 't', 'f', ']', '}', ' ', '\t', '\n', '\r'], c ≠ d := by
    rintro d hmem rfl
    rcases h with rfl | h
    · exact (hd _ hmem).1 rfl
    · simp [(hd _ hmem).2] at h
  simp only [List.mem_cons, forall_eq_or_imp, List.not_mem_nil, false_implies, implies_true,
    and_true] at hne
  simp [isBlank, hne]

theorem skip_cons {c : Char} (h : isBlank c = false) (r : List Char) : skip (c :: r) = c :: r := by
  simp [skip, List.dropWhile, h]

theorem print_head {esc : Char → List Char} {j : Json} (h : Over (Faithful esc) j) :
    ∃ c r, print esc j = c :: r ∧ isBlank c = false ∧ c ≠ ']' := by
  cases j with
  | null => exact ⟨_, _, rfl, by decide, by decide⟩
  | bool b => cases b <;> exact ⟨_, _, rfl, by decide, by decide⟩
  | num lit =>
    have hlit : Numeral lit := h
    obtain ⟨c, r, he, hc⟩ := hlit.head
    have hne := sign_or_digit hc
    exact ⟨c, r, he, hne.1, fun hb => hne.2 (by simp [hb])⟩
  | str s => exact ⟨_, _, rfl, by decide, by decide⟩
  | arr xs => exact ⟨_, _, rfl, by decide, by decide⟩
  | obj fs => exact ⟨_, _, rfl, by decide, by decide⟩

theorem printMore_cons (esc : Char → List Char) (x : Json) (xs : List Json) :
    printMore esc (x :: xs) = ',' :: printElems esc (x :: xs) := rfl

/-- A list is as long as its elements and the commas between them. -/
theorem printMore_length {esc : Char → List Char} {n : Nat} {xs : List Json}
    (h : ∀ x ∈ xs, (print esc x).length ≤ n) : (printMore esc xs).length ≤ (n + 1) * xs.length := by
  induction xs with
  | nil => exact Nat.zero_le _
  | cons x xs ih =>
    have hx := h x List.mem_cons_self
    have hxs := ih (fun y hy => h y (List.mem_cons_of_mem _ hy))
    rw [printMore, List.length_append, List.length_cons, List.length_cons, Nat.mul_succ]
    omega

theorem printElems_length {esc : Char → List Char} {n : Nat} {xs : List Json}
    (h : ∀ x ∈ xs, (print esc x).length ≤ n) : (printElems esc xs).length ≤ (n + 1) * xs.length := by
  cases xs with
  | nil => exact Nat.zero_le _
  | cons x xs =>
    have hmore := printMore_length h
    rw [printMore_cons, List.length_cons] at hmore
    omega

theorem printRest_cons (esc : Char → List Char) (f : String × Json) (fs : List (String × Json)) :
    printRest esc (f :: fs) = ',' :: printFields esc (f :: fs) := rfl

/-- An object is at least as long as each of its fields. -/
theorem printFields_mem_length {esc : Char → List Char} {f : String × Json} {fs : List (String × Json)}
    (h : f ∈ fs) : (printField esc f).length ≤ (printFields esc fs).length := by
  induction fs with
  | nil => cases h
  | cons g fs ih =>
    rw [printFields, List.length_append]
    rcases List.mem_cons.mp h with rfl | h
    · exact Nat.le_add_right _ _
    · cases fs with
      | nil => cases h
      | cons g' fs =>
        have hrest := ih h
        rw [printRest_cons, List.length_cons]
        omega

theorem print_mem_length {esc : Char → List Char} {k : String} {v : Json} {fs : List (String × Json)}
    (h : (k, v) ∈ fs) : (print esc v).length ≤ (print esc (.obj fs)).length := by
  have hfield := @printFields_mem_length esc (k, v) fs h
  rw [printField, List.length_append, List.length_cons] at hfield
  rw [print, List.length_append, List.length_cons]
  omega

theorem length_le_quote {esc : Char → List Char} (h : ∀ c, esc c ≠ []) (s : String) :
    s.toList.length ≤ (quote esc s).length := by
  have hflat : ∀ cs : List Char, cs.length ≤ (cs.flatMap esc).length := by
    intro cs
    induction cs with
    | nil => exact Nat.le_refl 0
    | cons c cs ih =>
      have hc := List.length_pos_iff.mpr (h c)
      rw [List.flatMap_cons, List.length_append, List.length_cons]
      omega
  have hcs := hflat s.toList
  rw [quote, List.length_append, List.length_cons]
  omega

theorem ends_comma (r : List Char) : Ends (',' :: r) := fun _ h => Or.inl (Option.some.inj h).symm

theorem ends_bracket (r : List Char) : Ends (']' :: r) :=
  fun _ h => Or.inr (Or.inl (Option.some.inj h).symm)

theorem ends_brace (r : List Char) : Ends ('}' :: r) :=
  fun _ h => Or.inr (Or.inr (Option.some.inj h).symm)

theorem ends_nil : Ends [] := fun _ h => nomatch h

theorem value_num {lit rest : List Char} (hlit : Numeral lit) (h : Ends rest) (k : Nat) :
    value (k + 1) (lit ++ rest) = some (.num lit, rest) := by
  obtain ⟨c, r, he, hc⟩ := hlit.head
  obtain ⟨hb, hne⟩ := sign_or_digit hc
  simp only [List.mem_cons, List.not_mem_nil, or_false, not_or] at hne
  obtain ⟨h1, h2, h3, h4, h5, h6, -⟩ := hne
  have hnum := number_read hlit h
  rw [he, List.cons_append] at hnum ⊢
  simp only [value, skip_cons hb, h1, h2, h3, h4, h5, h6, if_false, hnum, Option.map]

mutual
theorem value_print {esc : Char → List Char} (j : Json) (n : Nat) (rest : List Char)
    (hp : Over (Faithful esc) j) (hn : (print esc j).length ≤ n) (hr : Ends rest) :
    value n (print esc j ++ rest) = some (j, rest) := by
  obtain ⟨c, r, hc, -, -⟩ := print_head hp
  obtain ⟨k, rfl⟩ : ∃ k, n = k + 1 := ⟨n - 1, by rw [hc, List.length_cons] at hn; omega⟩
  match j, hp with
  | .null, _ => rfl
  | .bool true, _ => rfl
  | .bool false, _ => rfl
  | .num lit, hp => exact value_num hp hr k
  | .str s, hp =>
    have hs := string_quote hp rest
    simp only [print, quote, List.cons_append, List.append_assoc, List.nil_append, value,
      skip_cons (show isBlank '"' = false by decide)]
    simp [hs]
  | .arr [], _ => rfl
  | .arr (x :: xs), hp =>
    have ih := elements_print (x :: xs) k rest (by simp) hp (by
      simp only [print, List.length_cons, List.length_append] at hn
      omega)
    obtain ⟨d, r', hd, hb, hne⟩ := print_head hp.1
    have he : ∃ r'', printElems esc (x :: xs) = d :: r'' := ⟨_, by rw [printElems, hd]; rfl⟩
    obtain ⟨r'', he⟩ := he
    simp only [he, List.cons_append] at ih
    simp only [print, List.cons_append, List.append_assoc, List.nil_append, value,
      skip_cons (show isBlank '[' = false by decide), he, skip_cons hb, hne]
    simp [ih]
  | .obj [], _ => rfl
  | .obj ((key, v) :: fs), hp =>
    have ih := members_print ((key, v) :: fs) k rest (by simp) hp (by
      simp only [print, List.length_cons, List.length_append] at hn
      omega)
    have he : ∃ r'', printFields esc ((key, v) :: fs) = '"' :: r'' := ⟨_, rfl⟩
    obtain ⟨r'', he⟩ := he
    simp only [he, List.cons_append] at ih
    simp only [print, List.cons_append, List.append_assoc, List.nil_append, value,
      skip_cons (show isBlank '{' = false by decide), he,
      skip_cons (show isBlank '"' = false by decide)]
    simp [ih]
termination_by structural j
theorem elements_print {esc : Char → List Char} (xs : List Json) (n : Nat) (rest : List Char)
    (hne : xs ≠ []) (hp : OverElems (Faithful esc) xs) (hn : (printElems esc xs).length < n) :
    elements n (printElems esc xs ++ ']' :: rest) = some (xs, rest) := by
  obtain ⟨k, rfl⟩ : ∃ k, n = k + 1 := ⟨n - 1, by omega⟩
  match xs, hp with
  | [], _ => exact absurd rfl hne
  | [x], hp =>
    have hv := value_print x k (']' :: rest) hp.1 (by
      simp only [printElems, List.length_append] at hn
      omega) (ends_bracket _)
    simp only [printElems, printMore, List.append_nil, elements, hv,
      skip_cons (show isBlank ']' = false by decide)]
    simp
  | x :: y :: ys, hp =>
    have hlen : (print esc x).length + (1 + (printElems esc (y :: ys)).length) < k + 1 := by
      rw [printElems, printMore_cons, List.length_append, List.length_cons] at hn
      omega
    have hv := value_print x k (',' :: (printElems esc (y :: ys) ++ ']' :: rest)) hp.1 (by omega)
      (ends_comma _)
    have ih := elements_print (y :: ys) k rest (by simp) hp.2 (by omega)
    rw [printElems, printMore_cons, List.append_assoc, List.cons_append]
    simp only [elements, hv, skip_cons (show isBlank ',' = false by decide), ih]
    simp
termination_by structural xs
theorem members_print {esc : Char → List Char} (fs : List (String × Json)) (n : Nat)
    (rest : List Char) (hne : fs ≠ []) (hp : OverFields (Faithful esc) fs)
    (hn : (printFields esc fs).length < n) :
    members n (printFields esc fs ++ '}' :: rest) = some (fs, rest) := by
  obtain ⟨k, rfl⟩ : ∃ k, n = k + 1 := ⟨n - 1, by omega⟩
  match fs, hp with
  | [], _ => exact absurd rfl hne
  | [f], hp =>
    have hm := member_print f k ('}' :: rest) hp.1 (by
      simp only [printFields, List.length_append] at hn
      omega) (ends_brace _)
    simp only [printFields, printRest, List.append_nil, members, hm,
      skip_cons (show isBlank '}' = false by decide)]
    simp
  | f :: g :: gs, hp =>
    have hlen : (printField esc f).length + (1 + (printFields esc (g :: gs)).length) < k + 1 := by
      rw [printFields, printRest_cons, List.length_append, List.length_cons] at hn
      omega
    have hm := member_print f k (',' :: (printFields esc (g :: gs) ++ '}' :: rest)) hp.1 (by omega)
      (ends_comma _)
    have ih := members_print (g :: gs) k rest (by simp) hp.2 (by omega)
    rw [printFields, printRest_cons, List.append_assoc, List.cons_append]
    simp only [members, hm, skip_cons (show isBlank ',' = false by decide), ih]
    simp
termination_by structural fs
theorem member_print {esc : Char → List Char} (f : String × Json) (n : Nat) (rest : List Char)
    (hp : OverField (Faithful esc) f) (hn : (printField esc f).length ≤ n) (hr : Ends rest) :
    member n (printField esc f ++ rest) = some (f, rest) := by
  match f, hp with
  | (key, v), hp =>
    simp only [printField, quote, List.length_append, List.length_cons] at hn
    obtain ⟨k, rfl⟩ : ∃ k, n = k + 1 := ⟨n - 1, by omega⟩
    have hs := string_quote hp.1 (':' :: (print esc v ++ rest))
    have hv := value_print v k rest hp.2 (by omega) hr
    simp only [printField, quote, List.cons_append, List.append_assoc, List.nil_append, member,
      skip_cons (show isBlank '"' = false by decide), hs,
      skip_cons (show isBlank ':' = false by decide), hv]
    simp
termination_by structural f
end

theorem parse_print {esc : Char → List Char} {j : Json} (h : Over (Faithful esc) j) :
    parse (print esc j) = some j := by
  have hv := value_print j ((print esc j).length + 1) [] h (by omega) ends_nil
  rw [List.append_nil] at hv
  simp [parse, hv, skip]

/-- Whatever has been read has its numbers spelled as numerals. -/
structure ReadOver (n : Nat) : Prop where
  value : ∀ cs j r, value n cs = some (j, r) → Over (fun _ => True) j
  elements : ∀ cs xs r, elements n cs = some (xs, r) → OverElems (fun _ => True) xs
  members : ∀ cs fs r, members n cs = some (fs, r) → OverFields (fun _ => True) fs
  member : ∀ cs f r, member n cs = some (f, r) → OverField (fun _ => True) f

theorem spelled_any (s : String) : Spelled (fun _ => True) s := fun _ _ => trivial

theorem value_over {n : Nat} (h : ReadOver n) {cs r : List Char} {j : Json}
    (hv : value (n + 1) cs = some (j, r)) : Over (fun _ => True) j := by
  unfold Json.value at hv
  split at hv
  · cases hv
  · split at hv
    · split at hv
      · cases hv
      · split at hv
        · obtain ⟨rfl, -⟩ := Prod.mk.inj (Option.some.inj hv)
          exact trivial
        · obtain ⟨⟨fs, r'⟩, hfs, heq⟩ := Option.map_eq_some_iff.mp hv
          obtain ⟨rfl, -⟩ := Prod.mk.inj heq
          exact h.members _ fs r' hfs
    · split at hv
      · split at hv
        · cases hv
        · split at hv
          · obtain ⟨rfl, -⟩ := Prod.mk.inj (Option.some.inj hv)
            exact trivial
          · obtain ⟨⟨xs, r'⟩, hxs, heq⟩ := Option.map_eq_some_iff.mp hv
            obtain ⟨rfl, -⟩ := Prod.mk.inj heq
            exact h.elements _ xs r' hxs
      · split at hv
        · obtain ⟨⟨s, r'⟩, -, heq⟩ := Option.map_eq_some_iff.mp hv
          obtain ⟨rfl, -⟩ := Prod.mk.inj heq
          exact spelled_any s
        · have hword : ∀ (word : List Char) (k : Json) (cs : List Char),
              keyword word k cs = some (j, r) → j = k := by
            intro word k cs hk
            unfold keyword at hk
            split at hk
            · exact (Prod.mk.inj (Option.some.inj hk)).1.symm
            · cases hk
          split at hv
          · rw [hword _ _ _ hv]
            exact trivial
          · split at hv
            · rw [hword _ _ _ hv]
              exact trivial
            · split at hv
              · rw [hword _ _ _ hv]
                exact trivial
              · obtain ⟨⟨lit, r'⟩, hlit, heq⟩ := Option.map_eq_some_iff.mp hv
                obtain ⟨rfl, -⟩ := Prod.mk.inj heq
                exact numeral_of_number hlit

theorem elements_over {n : Nat} (h : ReadOver n) {cs r : List Char} {xs : List Json}
    (hv : elements (n + 1) cs = some (xs, r)) : OverElems (fun _ => True) xs := by
  unfold Json.elements at hv
  split at hv
  · cases hv
  · rename_i x r' hx
    have hover := h.value _ x r' hx
    split at hv
    · cases hv
    · split at hv
      · obtain ⟨⟨ys, r''⟩, hys, heq⟩ := Option.map_eq_some_iff.mp hv
        obtain ⟨rfl, -⟩ := Prod.mk.inj heq
        exact ⟨hover, h.elements _ ys r'' hys⟩
      · split at hv
        · obtain ⟨rfl, -⟩ := Prod.mk.inj (Option.some.inj hv)
          exact ⟨hover, trivial⟩
        · cases hv

theorem members_over {n : Nat} (h : ReadOver n) {cs r : List Char} {fs : List (String × Json)}
    (hv : members (n + 1) cs = some (fs, r)) : OverFields (fun _ => True) fs := by
  unfold Json.members at hv
  split at hv
  · cases hv
  · rename_i f r' hf
    have hover := h.member _ f r' hf
    split at hv
    · cases hv
    · split at hv
      · obtain ⟨⟨gs, r''⟩, hgs, heq⟩ := Option.map_eq_some_iff.mp hv
        obtain ⟨rfl, -⟩ := Prod.mk.inj heq
        exact ⟨hover, h.members _ gs r'' hgs⟩
      · split at hv
        · obtain ⟨rfl, -⟩ := Prod.mk.inj (Option.some.inj hv)
          exact ⟨hover, trivial⟩
        · cases hv

theorem member_over {n : Nat} (h : ReadOver n) {cs r : List Char} {f : String × Json}
    (hv : member (n + 1) cs = some (f, r)) : OverField (fun _ => True) f := by
  unfold Json.member at hv
  split at hv
  · cases hv
  · split at hv
    · split at hv
      · cases hv
      · rename_i key r' hkey
        split at hv
        · cases hv
        · split at hv
          · obtain ⟨⟨v, r''⟩, hvalue, heq⟩ := Option.map_eq_some_iff.mp hv
            obtain ⟨rfl, -⟩ := Prod.mk.inj heq
            exact ⟨spelled_any key, h.value _ v r'' hvalue⟩
          · cases hv
    · cases hv

theorem readOver (n : Nat) : ReadOver n := by
  induction n with
  | zero =>
    refine ⟨?_, ?_, ?_, ?_⟩
    all_goals
      intro cs x r h
      cases h
  | succ n ih =>
    exact ⟨fun _ _ _ h => value_over ih h, fun _ _ _ h => elements_over ih h,
      fun _ _ _ h => members_over ih h, fun _ _ _ h => member_over ih h⟩

theorem over_of_parse {cs : List Char} {j : Json} (h : parse cs = some j) : Over (fun _ => True) j := by
  unfold parse at h
  split at h
  · rename_i k r hv
    split at h
    · obtain rfl := Option.some.inj h
      exact (readOver _).value cs k r hv
    · cases h
  · cases h

mutual
theorem Over.mono {P Q : Char → Prop} (hPQ : ∀ c, P c → Q c) (j : Json) (h : Over P j) :
    Over Q j := by
  match j, h with
  | .null, _ => trivial
  | .bool _, _ => trivial
  | .num _, h => exact h
  | .str _, h => exact fun c hc => hPQ c (h c hc)
  | .arr xs, h => exact OverElems.mono hPQ xs h
  | .obj fs, h => exact OverFields.mono hPQ fs h
termination_by structural j
theorem OverElems.mono {P Q : Char → Prop} (hPQ : ∀ c, P c → Q c) (xs : List Json)
    (h : OverElems P xs) : OverElems Q xs := by
  match xs, h with
  | [], _ => trivial
  | x :: xs, h => exact ⟨Over.mono hPQ x h.1, OverElems.mono hPQ xs h.2⟩
termination_by structural xs
theorem OverFields.mono {P Q : Char → Prop} (hPQ : ∀ c, P c → Q c) (fs : List (String × Json))
    (h : OverFields P fs) : OverFields Q fs := by
  match fs, h with
  | [], _ => trivial
  | f :: fs, h => exact ⟨OverField.mono hPQ f h.1, OverFields.mono hPQ fs h.2⟩
termination_by structural fs
theorem OverField.mono {P Q : Char → Prop} (hPQ : ∀ c, P c → Q c) (f : String × Json)
    (h : OverField P f) : OverField Q f := by
  match f, h with
  | (_, v), h => exact ⟨fun c hc => hPQ c (h.1 c hc), Over.mono hPQ v h.2⟩
termination_by structural f
end

/-- The characters a writer leaves alone. -/
def Verbatim (esc : Char → List Char) (c : Char) : Prop := esc c = [c]

theorem quote_verbatim {esc : Char → List Char} {s : String} (h : Spelled (Verbatim esc) s) :
    quote esc s = '"' :: s.toList ++ ['"'] := by
  have hflat : ∀ cs : List Char, (∀ c ∈ cs, esc c = [c]) → cs.flatMap esc = cs := by
    intro cs hcs
    induction cs with
    | nil => rfl
    | cons c cs ih =>
      rw [List.flatMap_cons, hcs c List.mem_cons_self,
        ih (fun d hd => hcs d (List.mem_cons_of_mem _ hd))]
      rfl
  rw [quote, hflat _ h]

/-- The text of a value as any writer writes it that leaves its strings alone. -/
def plainText (j : Json) : List Char := print (fun c => [c]) j

theorem quote_plain {esc : Char → List Char} {s : String} (h : Spelled (Verbatim esc) s) :
    quote esc s = quote (fun c => [c]) s := by
  rw [quote_verbatim h, quote_verbatim (fun _ _ => rfl)]

mutual
theorem print_verbatim {esc : Char → List Char} (j : Json) (h : Over (Verbatim esc) j) :
    print esc j = plainText j := by
  match j, h with
  | .null, _ => rfl
  | .bool _, _ => rfl
  | .num _, _ => rfl
  | .str s, h => exact quote_plain h
  | .arr [], _ => rfl
  | .arr (x :: xs), h =>
    simp only [plainText, print, printElems]
    rw [print_verbatim x h.1, printMore_verbatim xs h.2]
    rfl
  | .obj [], _ => rfl
  | .obj (f :: fs), h =>
    simp only [plainText, print, printFields]
    rw [printField_verbatim f h.1, printRest_verbatim fs h.2]
termination_by structural j
theorem printMore_verbatim {esc : Char → List Char} (xs : List Json)
    (h : OverElems (Verbatim esc) xs) : printMore esc xs = printMore (fun c => [c]) xs := by
  match xs, h with
  | [], _ => rfl
  | x :: xs, h =>
    simp only [printMore]
    rw [print_verbatim x h.1, printMore_verbatim xs h.2]
    rfl
termination_by structural xs
theorem printRest_verbatim {esc : Char → List Char} (fs : List (String × Json))
    (h : OverFields (Verbatim esc) fs) : printRest esc fs = printRest (fun c => [c]) fs := by
  match fs, h with
  | [], _ => rfl
  | f :: fs, h =>
    simp only [printRest]
    rw [printField_verbatim f h.1, printRest_verbatim fs h.2]
termination_by structural fs
theorem printField_verbatim {esc : Char → List Char} (f : String × Json)
    (h : OverField (Verbatim esc) f) : printField esc f = printField (fun c => [c]) f := by
  match f, h with
  | (k, v), h =>
    simp only [printField]
    rw [quote_plain h.1, print_verbatim v h.2]
    rfl
termination_by structural f
end

/-- The characters of a text outside of its strings. -/
def marks : List Char := "\x7b\x7d[],:\"nultrefasE+-.0123456789".toList

def Marked (cs : List Char) : Prop := ∀ c ∈ cs, c ∈ marks

instance : DecidablePred Marked := fun cs => inferInstanceAs (Decidable (∀ c ∈ cs, c ∈ marks))

theorem marked_append {xs ys : List Char} (hx : Marked xs) (hy : Marked ys) : Marked (xs ++ ys) := by
  intro c hc
  rcases List.mem_append.mp hc with hc | hc
  · exact hx c hc
  · exact hy c hc

theorem marked_cons {c : Char} {cs : List Char} (hc : c ∈ marks) (hcs : Marked cs) :
    Marked (c :: cs) := by
  intro d hd
  rcases List.mem_cons.mp hd with rfl | hd
  · exact hc
  · exact hcs d hd

theorem marked_nil : Marked [] := fun _ h => nomatch h

theorem Digits.marked {ds : List Char} (h : Digits ds) : Marked ds := by
  have hall : ∀ n < 58, 48 ≤ n → Char.ofNat n ∈ marks := by decide
  intro c hc
  have hdigit := h.2 c hc
  simp only [Char.isDigit, Bool.and_eq_true, decide_eq_true_eq] at hdigit
  have hge : 48 ≤ c.toNat := hdigit.1
  have hle : c.toNat ≤ 57 := hdigit.2
  have hmark := hall c.toNat (by omega) hge
  rwa [Char.ofNat_toNat] at hmark

theorem Fraction.marked {frac : List Char} (h : Fraction frac) : Marked frac := by
  cases h with
  | none => exact marked_nil
  | digits ds h => exact marked_cons (by decide) h.marked

theorem Exponent.marked {exp : List Char} (h : Exponent exp) : Marked exp := by
  cases h with
  | none => exact marked_nil
  | digits c sign ds hc hs h =>
    have hsign : Marked sign := by
      rcases hs with rfl | rfl | rfl
      · exact marked_nil
      · exact marked_cons (by decide) marked_nil
      · exact marked_cons (by decide) marked_nil
    refine marked_cons ?_ (marked_append hsign h.marked)
    rcases hc with rfl | rfl <;> decide

theorem Numeral.marked {lit : List Char} (h : Numeral lit) : Marked lit := by
  obtain ⟨sign, int, frac, exp, rfl, hs, hi, -, hf, he⟩ := h.parts
  have hsign : Marked sign := by
    rcases hs with rfl | rfl
    · exact marked_nil
    · exact marked_cons (by decide) marked_nil
  exact marked_append hsign (marked_append hi.marked (marked_append hf.marked he.marked))

section
variable {esc : Char → List Char} {S P : Char → Prop}

theorem quote_chars (hmark : ∀ c ∈ marks, P c) (hesc : ∀ c, S c → ∀ d ∈ esc c, P d) {s : String}
    (h : Spelled S s) : ∀ c ∈ quote esc s, P c := by
  intro c hc
  simp only [quote, List.cons_append, List.mem_cons, List.mem_append, List.mem_flatMap, List.not_mem_nil,
    or_false] at hc
  rcases hc with rfl | ⟨d, hd, hc⟩ | rfl
  · exact hmark _ (by decide)
  · exact hesc d (h d hd) c hc
  · exact hmark _ (by decide)

mutual
/-- The text of a value is made of marks and of what is written for the characters of its
strings. -/
theorem print_chars (hmark : ∀ c ∈ marks, P c) (hesc : ∀ c, S c → ∀ d ∈ esc c, P d) (j : Json)
    (h : Over S j) : ∀ c ∈ print esc j, P c := by
  match j, h with
  | .null, _ => exact fun c hc => hmark c ((by decide : Marked ['n', 'u', 'l', 'l']) c hc)
  | .bool true, _ => exact fun c hc => hmark c ((by decide : Marked ['t', 'r', 'u', 'e']) c hc)
  | .bool false, _ => exact fun c hc => hmark c ((by decide : Marked ['f', 'a', 'l', 's', 'e']) c hc)
  | .num lit, h => exact fun c hc => hmark c (Numeral.marked h c hc)
  | .str s, h => exact quote_chars hmark hesc h
  | .arr [], _ => exact fun c hc => hmark c ((by decide : Marked ['[', ']']) c hc)
  | .arr (x :: xs), h =>
    have hx := print_chars hmark hesc x h.1
    have hxs := printMore_chars hmark hesc xs h.2
    intro c hc
    simp only [print, printElems, List.cons_append, List.mem_cons, List.mem_append, List.not_mem_nil,
      or_false] at hc
    rcases hc with rfl | (hc | hc) | rfl
    · exact hmark _ (by decide)
    · exact hx c hc
    · exact hxs c hc
    · exact hmark _ (by decide)
  | .obj [], _ => exact fun c hc => hmark c ((by decide : Marked ['{', '}']) c hc)
  | .obj (f :: fs), h =>
    have hx := printField_chars hmark hesc f h.1
    have hxs := printRest_chars hmark hesc fs h.2
    intro c hc
    simp only [print, printFields, List.cons_append, List.mem_cons, List.mem_append, List.not_mem_nil,
      or_false] at hc
    rcases hc with rfl | (hc | hc) | rfl
    · exact hmark _ (by decide)
    · exact hx c hc
    · exact hxs c hc
    · exact hmark _ (by decide)
termination_by structural j
theorem printMore_chars (hmark : ∀ c ∈ marks, P c) (hesc : ∀ c, S c → ∀ d ∈ esc c, P d)
    (xs : List Json) (h : OverElems S xs) : ∀ c ∈ printMore esc xs, P c := by
  match xs, h with
  | [], _ => exact fun _ hc => nomatch hc
  | x :: xs, h =>
    have hx := print_chars hmark hesc x h.1
    have hxs := printMore_chars hmark hesc xs h.2
    intro c hc
    simp only [printMore, List.cons_append, List.mem_cons, List.mem_append] at hc
    rcases hc with rfl | hc | hc
    · exact hmark _ (by decide)
    · exact hx c hc
    · exact hxs c hc
termination_by structural xs
theorem printRest_chars (hmark : ∀ c ∈ marks, P c) (hesc : ∀ c, S c → ∀ d ∈ esc c, P d)
    (fs : List (String × Json)) (h : OverFields S fs) : ∀ c ∈ printRest esc fs, P c := by
  match fs, h with
  | [], _ => exact fun _ hc => nomatch hc
  | f :: fs, h =>
    have hx := printField_chars hmark hesc f h.1
    have hxs := printRest_chars hmark hesc fs h.2
    intro c hc
    simp only [printRest, List.cons_append, List.mem_cons, List.mem_append] at hc
    rcases hc with rfl | hc | hc
    · exact hmark _ (by decide)
    · exact hx c hc
    · exact hxs c hc
termination_by structural fs
theorem printField_chars (hmark : ∀ c ∈ marks, P c) (hesc : ∀ c, S c → ∀ d ∈ esc c, P d)
    (f : String × Json) (h : OverField S f) : ∀ c ∈ printField esc f, P c := by
  match f, h with
  | (k, v), h =>
    have hk := quote_chars hmark hesc h.1
    have hv := print_chars hmark hesc v h.2
    intro c hc
    simp only [printField, List.mem_append, List.mem_cons] at hc
    rcases hc with hc | rfl | hc
    · exact hk c hc
    · exact hmark _ (by decide)
    · exact hv c hc
termination_by structural f
end

end

theorem plain_ascii (j : Json) (h : Over (fun c => c.toNat < 0x80) j) : Ascii (plainText j) := by
  refine print_chars (by decide) ?_ j h
  intro c hc d hd
  rw [List.mem_singleton.mp hd]
  exact hc

end Switchboard.Text.Json
