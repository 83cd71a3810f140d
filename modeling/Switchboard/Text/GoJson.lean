import Switchboard.Text.JsonPrint
import Switchboard.Text.Keys

namespace Switchboard.Text

namespace Json

mutual
def depth : Json → Nat
  | .null => 0
  | .bool _ => 0
  | .num _ => 0
  | .str _ => 0
  | .arr xs => depthElems xs + 1
  | .obj fs => depthFields fs + 1
termination_by structural x => x
def depthElems : List Json → Nat
  | [] => 0
  | x :: xs => max (depth x) (depthElems xs)
termination_by structural x => x
def depthFields : List (String × Json) → Nat
  | [] => 0
  | f :: fs => max (depthField f) (depthFields fs)
termination_by structural x => x
def depthField : String × Json → Nat
  | (_, v) => depth v
termination_by structural x => x
end

end Json

namespace GoJson

def hexChar (n : Nat) : Char := Nat.digitChar n

/-- `\u` and four lower-case hexadecimal digits. -/
def unicodeEscape (n : Nat) : List Char :=
  ['\\', 'u', hexChar (n / 4096 % 16), hexChar (n / 256 % 16), hexChar (n / 16 % 16),
    hexChar (n % 16)]

/-- How `json.Marshal` writes one character of a string, HTML escaping included. -/
def escape (c : Char) : List Char :=
  if c = '"' || c = '\\' then ['\\', c]
  else if c = '\n' then ['\\', 'n']
  else if c = '\r' then ['\\', 'r']
  else if c = '\t' then ['\\', 't']
  else if c.toNat = 8 then ['\\', 'b']
  else if c.toNat = 12 then ['\\', 'f']
  else if c.toNat < 0x20 || c = '<' || c = '>' || c = '&' || c.toNat = 0x2028 || c.toNat = 0x2029
  then unicodeEscape c.toNat
  else [c]

def marshal (j : Json) : Bytes := utf8 (Json.print escape j)

theorem escape_ne_nil (c : Char) : escape c ≠ [] := by
  unfold escape
  repeat' split
  all_goals exact List.cons_ne_nil _ _

/-- A `map[string]any`, which is written in the order of its keys. -/
def map (fs : List (String × Json)) : Json := .obj (sortKeys fs)

/-- `maxNestingDepth` of the scanner. -/
def maxNestingDepth : Nat := 10000

/-- One value and nothing else, in bytes that need not be valid UTF-8. -/
def scan (b : Bytes) : Option Json :=
  (Json.parse (decodeUtf8 b)).filter (fun j => decide (j.depth ≤ maxNestingDepth))

/-- A member is matched to a field by folding case, under which the Kelvin sign is a
`k` and the long s an `s`. -/
def foldChar (c : Char) : Char :=
  if 'a'.toNat ≤ c.toNat ∧ c.toNat ≤ 'z'.toNat then Char.ofNat (c.toNat - 32)
  else if c.toNat = 0x212A then 'K'
  else if c.toNat = 0x17F then 'S'
  else c

def foldName (s : String) : List Char := s.toList.map foldChar

/-- What a value does to the variable it is decoded into. -/
def Decoder (α : Type) : Type := α → Json → Option α

def string : Decoder String
  | old, .null => some old
  | _, .str s => some s
  | _, _ => none

def bool : Decoder Bool
  | old, .null => some old
  | _, .bool b => some b
  | _, _ => none

def inInt64 (n : Int) : Bool := decide (-9223372036854775808 ≤ n ∧ n ≤ 9223372036854775807)

def int64 : Decoder Int
  | old, .null => some old
  | _, .num lit => (Json.intOf lit).filter inInt64
  | _, _ => none

/-- A `json.RawMessage` keeps whatever is there, `null` included. -/
def raw : Decoder (Option Json) := fun _ j => some (some j)

def pointer (zero : α) (d : Decoder α) : Decoder (Option α)
  | _, .null => some none
  | old, j => (d (old.getD zero) j).map some

/-- Elements are decoded over those the slice already has. -/
def elements (zero : α) (d : Decoder α) : List α → List Json → Option (List α)
  | _, [] => some []
  | old, x :: xs =>
    match d (old.headD zero) x, elements zero d old.tail xs with
    | some a, some as => some (a :: as)
    | _, _ => none

def slice (zero : α) (d : Decoder α) : Decoder (List α)
  | _, .null => some []
  | old, .arr xs => elements zero d old xs
  | _, _ => none

structure Field (α : Type) where
  name : String
  decode : Decoder α

def field (name : String) (get : α → β) (set : α → β → α) (d : Decoder β) : Field α :=
  ⟨name, fun a j => (d (get a) j).map (set a)⟩

/-- The exact name first, then the first field whose name folds the same. -/
def findField (fields : List (Field α)) (key : String) : Option (Field α) :=
  match fields.find? (fun f => f.name == key) with
  | some f => some f
  | none => fields.find? (fun f => foldName f.name == foldName key)

/-- `strict` is `DisallowUnknownFields`. -/
def members (strict : Bool) (fields : List (Field α)) : α → List (String × Json) → Option α
  | a, [] => some a
  | a, (key, v) :: fs =>
    match findField fields key with
    | some f =>
      match f.decode a v with
      | some a => members strict fields a fs
      | none => none
    | none => if strict then none else members strict fields a fs

def struct (strict : Bool) (fields : List (Field α)) : Decoder α
  | a, .null => some a
  | a, .obj fs => members strict fields a fs
  | _, _ => none

def unmarshal (zero : α) (d : Decoder α) (b : Bytes) : Option α := (scan b).bind (d zero)

theorem hex4_unicodeEscape (n : Nat) (h : n < 65536) :
    Json.hex4 (hexChar (n / 4096 % 16)) (hexChar (n / 256 % 16)) (hexChar (n / 16 % 16))
      (hexChar (n % 16)) = some n := by
  have hd : ∀ m < 16, Json.hexDigit (hexChar m) = some m := by decide
  simp only [Json.hex4, hd _ (Nat.mod_lt _ (by decide : 0 < 16)), bind, Option.bind, pure,
    Option.some.injEq]
  omega

theorem escape_faithful (c : Char) : Json.Faithful escape c := by
  intro r
  unfold escape
  split
  · rename_i h
    simp only [Bool.or_eq_true, decide_eq_true_eq] at h
    rcases h with rfl | rfl
    · exact Json.units_simple (by decide) (by decide)
    · exact Json.units_simple (by decide) (by decide)
  · rename_i hq
    simp only [Bool.or_eq_true, decide_eq_true_eq, not_or] at hq
    split
    · subst c
      exact Json.units_simple (by decide) (by decide)
    · split
      · subst c
        exact Json.units_simple (by decide) (by decide)
      · split
        · subst c
          exact Json.units_simple (by decide) (by decide)
        · split
          · rename_i h8
            rw [h8]
            exact Json.units_simple (by decide) (by decide)
          · split
            · rename_i h12
              rw [h12]
              exact Json.units_simple (by decide) (by decide)
            · split
              · rename_i h
                have hlt : c.toNat < 65536 := by
                  simp only [Bool.or_eq_true, decide_eq_true_eq] at h
                  rcases h with ((((h | rfl) | rfl) | rfl) | h) | h <;> first | omega | decide
                exact Json.units_hex (hex4_unicodeEscape _ hlt)
              · rename_i h
                simp only [Bool.or_eq_true, decide_eq_true_eq, not_or] at h
                exact Json.units_plain hq.1 hq.2 (by omega)

/-- Printable ASCII that no JSON writer escapes. -/
def PlainChar (c : Char) : Prop :=
  0x20 ≤ c.toNat ∧ c.toNat < 0x7f ∧ c ∉ ['"', '\\', '<', '>', '&']

instance : DecidablePred PlainChar := fun c =>
  inferInstanceAs (Decidable (0x20 ≤ c.toNat ∧ c.toNat < 0x7f ∧ c ∉ ['"', '\\', '<', '>', '&']))

theorem PlainChar.ascii {c : Char} (h : PlainChar c) : c.toNat < 0x80 := by
  have hlt := h.2.1
  omega

theorem PlainChar.ne {c : Char} (h : PlainChar c) :
    c ≠ '"' ∧ c ≠ '\\' ∧ c ≠ '<' ∧ c ≠ '>' ∧ c ≠ '&' := by
  have hne := h.2.2
  simpa using hne

theorem PlainChar.ne_control {c : Char} (h : PlainChar c) : c ≠ '\n' ∧ c ≠ '\r' ∧ c ≠ '\t' := by
  have hge := h.1
  refine ⟨?_, ?_, ?_⟩
  · rintro rfl
    exact absurd hge (by decide)
  · rintro rfl
    exact absurd hge (by decide)
  · rintro rfl
    exact absurd hge (by decide)

theorem PlainChar.verbatim {c : Char} (h : PlainChar c) : Json.Verbatim escape c := by
  obtain ⟨hq, hb, hl, hg, ha⟩ := h.ne
  obtain ⟨hn, hr, ht⟩ := h.ne_control
  obtain ⟨hge, hlt, -⟩ := h
  have h1 : ¬c.toNat = 8 := by omega
  have h2 : ¬c.toNat = 12 := by omega
  have h3 : ¬c.toNat < 32 := by omega
  have h4 : ¬c.toNat = 0x2028 := by omega
  have h5 : ¬c.toNat = 0x2029 := by omega
  simp [Json.Verbatim, escape, hq, hb, hl, hg, ha, hn, hr, ht, h1, h2, h3, h4, h5]

theorem PlainChar.faithful {c : Char} (h : PlainChar c) : Json.Faithful (fun c => [c]) c := by
  intro r
  exact Json.units_plain h.ne.1 h.ne.2.1 h.1

theorem scan_plain {j : Json} (hj : Json.Over PlainChar j) (hd : j.depth ≤ maxNestingDepth) :
    scan (utf8 (Json.plainText j)) = some j := by
  have hp := Json.parse_print (hj.mono (fun _ hc => hc.faithful))
  rw [scan, decode_utf8, Json.plainText, hp]
  simp [hd]

theorem overFields_of_forall {P : Char → Prop} {fs : List (String × Json)}
    (h : ∀ f ∈ fs, Json.OverField P f) : Json.OverFields P fs := by
  induction fs with
  | nil => trivial
  | cons f fs ih =>
    exact ⟨h f List.mem_cons_self, ih (fun x hx => h x (List.mem_cons_of_mem _ hx))⟩

theorem over_map {P : Char → Prop} {fs : List (String × Json)}
    (h : ∀ f ∈ fs, Json.OverField P f) : Json.Over P (map fs) :=
  overFields_of_forall (fun f hf => h f ((sortKeys_perm fs).mem_iff.mp hf))

theorem depthFields_le {n : Nat} {fs : List (String × Json)} (h : ∀ f ∈ fs, f.2.depth ≤ n) :
    Json.depthFields fs ≤ n := by
  induction fs with
  | nil => exact Nat.zero_le n
  | cons f fs ih =>
    have hf : Json.depthField f ≤ n := by
      cases f
      exact h _ List.mem_cons_self
    have hfs := ih (fun x hx => h x (List.mem_cons_of_mem _ hx))
    exact Nat.max_le.mpr ⟨hf, hfs⟩

theorem depth_map {n : Nat} {fs : List (String × Json)} (h : ∀ f ∈ fs, f.2.depth ≤ n) :
    (map fs).depth ≤ n + 1 :=
  Nat.succ_le_succ (depthFields_le (fun f hf => h f ((sortKeys_perm fs).mem_iff.mp hf)))

/-- A value survives writing and reading. -/
theorem scan_marshal {j : Json} (hj : Json.Over (fun _ => True) j)
    (hd : j.depth ≤ maxNestingDepth) : scan (marshal j) = some j := by
  have hp := Json.parse_print (hj.mono (fun c _ => escape_faithful c))
  rw [scan, marshal, decode_utf8, hp]
  simp [hd]

theorem members_append (strict : Bool) (fields : List (Field α)) (a : α)
    (xs ys : List (String × Json)) :
    members strict fields a (xs ++ ys) =
      (members strict fields a xs).bind (fun a => members strict fields a ys) := by
  induction xs generalizing a with
  | nil => rfl
  | cons x xs ih =>
    obtain ⟨k, v⟩ := x
    simp only [List.cons_append, members]
    cases findField fields k with
    | none => cases strict <;> simp [ih]
    | some f =>
      simp only [ih]
      cases f.decode a v <;> rfl

theorem marshal_plain {j : Json} (hj : Json.Over PlainChar j) :
    marshal j = utf8 (Json.plainText j) := by
  rw [marshal, Json.print_verbatim j (hj.mono (fun _ hc => hc.verbatim))]

theorem escape_printable (c : Char) : ∀ d ∈ escape c, 0x20 ≤ d.toNat := by
  have hhex : ∀ n < 16, 0x20 ≤ (hexChar n).toNat := by decide
  intro d hd
  unfold escape at hd
  split at hd
  · rename_i hc
    simp only [Bool.or_eq_true, decide_eq_true_eq] at hc
    simp only [List.mem_cons, List.not_mem_nil, or_false] at hd
    rcases hd with rfl | rfl
    · decide
    · rcases hc with rfl | rfl <;> decide
  · have hlit : ∀ e : Char, 0x20 ≤ e.toNat → d ∈ ['\\', e] → 0x20 ≤ d.toNat := by
      intro e he hmem
      simp only [List.mem_cons, List.not_mem_nil, or_false] at hmem
      rcases hmem with rfl | rfl
      · decide
      · exact he
    split at hd
    · exact hlit _ (by decide) hd
    · split at hd
      · exact hlit _ (by decide) hd
      · split at hd
        · exact hlit _ (by decide) hd
        · split at hd
          · exact hlit _ (by decide) hd
          · split at hd
            · exact hlit _ (by decide) hd
            · split at hd
              · simp only [unicodeEscape, List.mem_cons, List.not_mem_nil, or_false] at hd
                rcases hd with rfl | rfl | rfl | rfl | rfl | rfl
                · decide
                · decide
                all_goals exact hhex _ (Nat.mod_lt _ (by decide))
              · rename_i hc
                simp only [Bool.or_eq_true, decide_eq_true_eq, not_or] at hc
                rw [List.mem_singleton.mp hd]
                omega

/-- What is written has no control characters in it. -/
theorem marshal_printable {j : Json} (hj : Json.Over (fun _ => True) j) :
    ∀ b ∈ marshal j, 0x20 ≤ b.toNat := by
  have hchars := Json.print_chars (P := fun c => 0x20 ≤ c.toNat) (by decide)
    (fun c _ => escape_printable c) j hj
  intro b hb
  obtain ⟨c, hc, hb⟩ := List.mem_flatMap.mp hb
  by_cases hc80 : c.toNat < 0x80
  · unfold utf8Char at hb
    rw [if_pos hc80] at hb
    rw [List.mem_singleton.mp hb, toNat_byte (by omega)]
    exact hchars c hc
  · have hhigh := utf8Char_high (by omega) b hb
    omega

theorem over_of_scan {b : Bytes} {j : Json} (h : scan b = some j) :
    Json.Over (fun _ => True) j ∧ j.depth ≤ maxNestingDepth := by
  obtain ⟨hparse, hdepth⟩ := Option.filter_eq_some_iff.mp h
  exact ⟨Json.over_of_parse hparse, of_decide_eq_true hdepth⟩

end GoJson

end Switchboard.Text
