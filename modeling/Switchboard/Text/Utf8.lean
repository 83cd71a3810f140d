import Mathlib

namespace Switchboard.Text

/-- What is said of each character of a list is decided along the list, not for every character. -/
instance (priority := high) decidableEachChar (p : Char → Prop) [DecidablePred p] (cs : List Char) :
    Decidable (∀ c, c ∈ cs → p c) :=
  List.decidableBAll p cs

abbrev Bytes := List UInt8

def utf8Char (c : Char) : Bytes :=
  let n := c.toNat
  if n < 0x80 then [UInt8.ofNat n]
  else if n < 0x800 then [UInt8.ofNat (0xC0 + n / 64), UInt8.ofNat (0x80 + n % 64)]
  else if n < 0x10000 then
    [UInt8.ofNat (0xE0 + n / 4096), UInt8.ofNat (0x80 + n / 64 % 64), UInt8.ofNat (0x80 + n % 64)]
  else
    [UInt8.ofNat (0xF0 + n / 262144), UInt8.ofNat (0x80 + n / 4096 % 64),
      UInt8.ofNat (0x80 + n / 64 % 64), UInt8.ofNat (0x80 + n % 64)]

/-- The UTF-8 encoding of a text. -/
def utf8 (cs : List Char) : Bytes := cs.flatMap utf8Char

/-- A continuation byte. -/
def continues (b : Nat) : Bool := 0x80 ≤ b && b ≤ 0xBF

/-- What stands for a byte that does not belong to a valid encoding. -/
def replacement : Char := Char.ofNat 0xFFFD

def oneChar (a : Nat) : Char × Nat := if a < 0x80 then (Char.ofNat a, 0) else (replacement, 0)

def twoChar (a : Nat) : Bytes → Char × Nat
  | b :: _ =>
    if 0xC2 ≤ a && a ≤ 0xDF && continues b.toNat then
      (Char.ofNat ((a - 0xC0) * 64 + (b.toNat - 0x80)), 1)
    else oneChar a
  | [] => oneChar a

def threeChar (a : Nat) : Bytes → Char × Nat
  | b :: c :: _ =>
    let n := (a - 0xE0) * 4096 + (b.toNat - 0x80) * 64 + (c.toNat - 0x80)
    if 0xE0 ≤ a && a ≤ 0xEF && continues b.toNat && continues c.toNat && 0x800 ≤ n &&
      !(0xD800 ≤ n && n ≤ 0xDFFF) then (Char.ofNat n, 2)
    else twoChar a [b]
  | r => twoChar a r

/-- The first character of an input that starts with `a`, and the number of bytes it
takes beyond that. A byte that starts no valid sequence is replaced. -/
def firstChar (a : Nat) : Bytes → Char × Nat
  | b :: c :: d :: _ =>
    let n := (a - 0xF0) * 262144 + (b.toNat - 0x80) * 4096 + (c.toNat - 0x80) * 64 +
      (d.toNat - 0x80)
    if 0xF0 ≤ a && a ≤ 0xF4 && continues b.toNat && continues c.toNat && continues d.toNat &&
      0x10000 ≤ n && n ≤ 0x10FFFF then (Char.ofNat n, 3)
    else threeChar a [b, c]
  | r => threeChar a r

/-- Decoding never fails. The counter is the number of bytes still to be passed
over as part of the character before. -/
def decodeFrom : Nat → Bytes → List Char
  | _, [] => []
  | k + 1, _ :: r => decodeFrom k r
  | 0, a :: r => (firstChar a.toNat r).1 :: decodeFrom (firstChar a.toNat r).2 r

def decodeUtf8 (b : Bytes) : List Char := decodeFrom 0 b

/-- A text of ASCII characters only. -/
def Ascii (cs : List Char) : Prop := ∀ c ∈ cs, c.toNat < 0x80

theorem utf8_cons (c : Char) (cs : List Char) : utf8 (c :: cs) = utf8Char c ++ utf8 cs :=
  List.flatMap_cons

theorem utf8_append (cs ds : List Char) : utf8 (cs ++ ds) = utf8 cs ++ utf8 ds :=
  List.flatMap_append

theorem utf8_ascii {cs : List Char} (h : Ascii cs) :
    utf8 cs = cs.map (fun c => UInt8.ofNat c.toNat) := by
  induction cs with
  | nil => rfl
  | cons c cs ih =>
    have hc := h c List.mem_cons_self
    have ht : Ascii cs := fun d hd => h d (List.mem_cons_of_mem _ hd)
    rw [utf8_cons, ih ht, utf8Char, if_pos hc]
    rfl

/-- An ASCII text has one byte for each character. -/
theorem utf8_length_ascii {cs : List Char} (h : Ascii cs) : (utf8 cs).length = cs.length := by
  rw [utf8_ascii h, List.length_map]

theorem length_le_utf8 (cs : List Char) : cs.length ≤ (utf8 cs).length := by
  induction cs with
  | nil => exact Nat.le_refl 0
  | cons c cs ih =>
    have hc : 1 ≤ (utf8Char c).length := by
      unfold utf8Char
      dsimp only
      repeat' split
      all_goals simp
    rw [utf8_cons, List.length_append, List.length_cons]
    omega

theorem toNat_byte {n : Nat} (h : n < 256) : (UInt8.ofNat n).toNat = n := by
  rw [UInt8.toNat_ofNat']
  exact Nat.mod_eq_of_lt h

theorem oneChar_ascii {c : Char} (h : c.toNat < 0x80) : oneChar c.toNat = (c, 0) := by
  rw [oneChar, if_pos h, Char.ofNat_toNat]

theorem twoChar_small {a : Nat} (h : a < 0xC2) (r : Bytes) : twoChar a r = oneChar a := by
  cases r with
  | nil => rfl
  | cons b r =>
    have hn : ¬0xC2 ≤ a := by omega
    simp [twoChar, hn]

theorem threeChar_small {a : Nat} (h : a < 0xE0) (r : Bytes) : threeChar a r = twoChar a r := by
  match r with
  | [] => rfl
  | [b] => rfl
  | b :: c :: r =>
    have hn : ¬0xE0 ≤ a := by omega
    simp [threeChar, hn, twoChar]

theorem firstChar_small {a : Nat} (h : a < 0xF0) (r : Bytes) : firstChar a r = threeChar a r := by
  match r with
  | [] => rfl
  | [b] => rfl
  | [b, c] => rfl
  | b :: c :: d :: r =>
    have hn : ¬0xF0 ≤ a := by omega
    simp [firstChar, hn, threeChar]

theorem continues_low (n : Nat) : continues (0x80 + n % 64) = true := by
  simp only [continues, Bool.and_eq_true, decide_eq_true_eq]
  omega

/-- A character is read back from its bytes, all of them and no more. -/
theorem firstChar_char (c : Char) (r : Bytes) :
    ∃ a t, utf8Char c = a :: t ∧ firstChar a.toNat (t ++ r) = (c, t.length) := by
  have hv : c.toNat < 0xD800 ∨ 0xDFFF < c.toNat ∧ c.toNat < 0x110000 := c.valid
  have hc : Char.ofNat c.toNat = c := Char.ofNat_toNat c
  have hlow := continues_low c.toNat
  have hmid := continues_low (c.toNat / 64)
  have htop := continues_low (c.toNat / 4096)
  have hb : (UInt8.ofNat (0x80 + c.toNat % 64)).toNat = 0x80 + c.toNat % 64 := toNat_byte (by omega)
  have hb' : (UInt8.ofNat (0x80 + c.toNat / 64 % 64)).toNat = 0x80 + c.toNat / 64 % 64 :=
    toNat_byte (by omega)
  have hb'' : (UInt8.ofNat (0x80 + c.toNat / 4096 % 64)).toNat = 0x80 + c.toNat / 4096 % 64 :=
    toNat_byte (by omega)
  unfold utf8Char
  dsimp only
  split
  · rename_i h
    refine ⟨_, _, rfl, ?_⟩
    rw [toNat_byte (by omega), firstChar_small (by omega), threeChar_small (by omega),
      twoChar_small (by omega), oneChar_ascii h]
    rfl
  split
  · rename_i h1 h2
    have hn : (0xC0 + c.toNat / 64 - 0xC0) * 64 + (0x80 + c.toNat % 64 - 0x80) = c.toNat := by omega
    have h3 : 0xC2 ≤ 0xC0 + c.toNat / 64 ∧ 0xC0 + c.toNat / 64 ≤ 0xDF := by omega
    refine ⟨_, _, rfl, ?_⟩
    rw [toNat_byte (by omega), firstChar_small (by omega), threeChar_small (by omega),
      List.cons_append, List.nil_append, twoChar, hb, hn, hc]
    simp [h3, hlow]
  split
  · rename_i h1 h2 h3
    have hn : (0xE0 + c.toNat / 4096 - 0xE0) * 4096 + (0x80 + c.toNat / 64 % 64 - 0x80) * 64 +
        (0x80 + c.toNat % 64 - 0x80) = c.toNat := by omega
    have h4 : 0xE0 ≤ 0xE0 + c.toNat / 4096 ∧ 0xE0 + c.toNat / 4096 ≤ 0xEF := by omega
    have h5 : 0x800 ≤ c.toNat := by omega
    have h6 : (decide (0xD800 ≤ c.toNat) && decide (c.toNat ≤ 0xDFFF)) = false := by
      simp only [Bool.and_eq_false_iff, decide_eq_false_iff_not]
      omega
    refine ⟨_, _, rfl, ?_⟩
    rw [toNat_byte (by omega), firstChar_small (by omega), List.cons_append, List.cons_append,
      List.nil_append, threeChar, hb, hb', hn, hc]
    simp [h4, h5, hlow, hmid, h6]
  · rename_i h1 h2 h3
    have hn : (0xF0 + c.toNat / 262144 - 0xF0) * 262144 + (0x80 + c.toNat / 4096 % 64 - 0x80) * 4096 +
        (0x80 + c.toNat / 64 % 64 - 0x80) * 64 + (0x80 + c.toNat % 64 - 0x80) = c.toNat := by omega
    have h4 : 0xF0 ≤ 0xF0 + c.toNat / 262144 ∧ 0xF0 + c.toNat / 262144 ≤ 0xF4 := by omega
    have h5 : 0x10000 ≤ c.toNat ∧ c.toNat ≤ 0x10FFFF := by omega
    refine ⟨_, _, rfl, ?_⟩
    rw [toNat_byte (by omega), List.cons_append, List.cons_append, List.cons_append, List.nil_append,
      firstChar, hb, hb', hb'', hn, hc]
    simp [h4, h5, hlow, hmid, htop]

theorem decodeFrom_length (a r : Bytes) : decodeFrom a.length (a ++ r) = decodeFrom 0 r := by
  induction a with
  | nil => rfl
  | cons x a ih => exact ih

theorem decode_char (c : Char) (r : Bytes) : decodeUtf8 (utf8Char c ++ r) = c :: decodeUtf8 r := by
  obtain ⟨a, t, hc, hfirst⟩ := firstChar_char c r
  rw [hc, List.cons_append, decodeUtf8, decodeFrom, hfirst, decodeFrom_length, decodeUtf8]

/-- Text survives encoding and decoding. -/
theorem decode_utf8 (cs : List Char) : decodeUtf8 (utf8 cs) = cs := by
  induction cs with
  | nil => rfl
  | cons c cs ih => rw [utf8_cons, decode_char, ih]

theorem decode_append (cs : List Char) (w : Bytes) : decodeUtf8 (utf8 cs ++ w) = cs ++ decodeUtf8 w := by
  induction cs with
  | nil => rfl
  | cons c cs ih => rw [utf8_cons, List.append_assoc, decode_char, ih, List.cons_append]

theorem ofNat_high {n : Nat} (h : 0x80 ≤ n) (hv : n < 0xD800 ∨ 0xDFFF < n ∧ n < 0x110000) :
    0x80 ≤ (Char.ofNat n).toNat := by
  have hn : (Char.ofNat n).toNat = n := by
    simp only [Char.ofNat, Nat.isValidChar, dif_pos hv]
    rfl
  rw [hn]
  exact h

theorem oneChar_high {a : Nat} (h : 0x80 ≤ a) : 0x80 ≤ (oneChar a).1.toNat := by
  rw [oneChar, if_neg (by omega)]
  decide

theorem twoChar_high {a : Nat} (h : 0x80 ≤ a) (r : Bytes) : 0x80 ≤ (twoChar a r).1.toNat := by
  cases r with
  | nil => exact oneChar_high h
  | cons b r =>
    dsimp only [twoChar]
    split
    · rename_i hc
      simp only [continues, Bool.and_eq_true, decide_eq_true_eq] at hc
      dsimp only
      apply ofNat_high <;> omega
    · exact oneChar_high h

theorem threeChar_high {a : Nat} (h : 0x80 ≤ a) (r : Bytes) : 0x80 ≤ (threeChar a r).1.toNat := by
  match r with
  | [] => exact twoChar_high h _
  | [b] => exact twoChar_high h _
  | b :: c :: r =>
    dsimp only [threeChar]
    split
    · rename_i hc
      simp only [continues, Bool.and_eq_true, decide_eq_true_eq, Bool.not_eq_true',
        Bool.and_eq_false_iff, decide_eq_false_iff_not] at hc
      dsimp only
      apply ofNat_high <;> omega
    · exact twoChar_high h _

theorem firstChar_high {a : Nat} (h : 0x80 ≤ a) (r : Bytes) : 0x80 ≤ (firstChar a r).1.toNat := by
  match r with
  | [] => exact threeChar_high h _
  | [b] => exact threeChar_high h _
  | [b, c] => exact threeChar_high h _
  | b :: c :: d :: r =>
    dsimp only [firstChar]
    split
    · rename_i hc
      simp only [continues, Bool.and_eq_true, decide_eq_true_eq] at hc
      dsimp only
      apply ofNat_high <;> omega
    · exact threeChar_high h _

/-- Bytes that are not ASCII are decoded to characters that are not. -/
theorem decode_high {w : Bytes} (h : ∀ b ∈ w, 0x80 ≤ b.toNat) (k : Nat) :
    ∀ c ∈ decodeFrom k w, 0x80 ≤ c.toNat := by
  induction w generalizing k with
  | nil =>
    intro c hc
    simp [decodeFrom] at hc
  | cons b w ih =>
    have ih := ih (fun d hd => h d (List.mem_cons_of_mem _ hd))
    cases k with
    | succ k => exact ih k
    | zero =>
      intro c hc
      rcases List.mem_cons.mp hc with rfl | hc
      · exact firstChar_high (h b List.mem_cons_self) w
      · exact ih _ c hc

theorem utf8Char_high {c : Char} (h : 0x80 ≤ c.toNat) : ∀ b ∈ utf8Char c, 0x80 ≤ b.toNat := by
  have hv : c.toNat < 0xD800 ∨ 0xDFFF < c.toNat ∧ c.toNat < 0x110000 := c.valid
  have hbyte : ∀ n, 0x80 ≤ n → n < 256 → 0x80 ≤ (UInt8.ofNat n).toNat := by
    intro n hn hlt
    rw [toNat_byte hlt]
    exact hn
  intro b hb
  unfold utf8Char at hb
  dsimp only at hb
  split at hb
  · omega
  split at hb
  · simp only [List.mem_cons, List.not_mem_nil, or_false] at hb
    rcases hb with rfl | rfl <;> exact hbyte _ (by omega) (by omega)
  split at hb
  · simp only [List.mem_cons, List.not_mem_nil, or_false] at hb
    rcases hb with rfl | rfl | rfl <;> exact hbyte _ (by omega) (by omega)
  · simp only [List.mem_cons, List.not_mem_nil, or_false] at hb
    rcases hb with rfl | rfl | rfl | rfl <;> exact hbyte _ (by omega) (by omega)

/-- The first bytes of a text are those of its first characters, and maybe some of one more
that is not ASCII. -/
theorem utf8_take (cs : List Char) {n : Nat} (h : n < (utf8 cs).length) :
    ∃ p c x w, cs = p ++ c :: x ∧ (utf8 cs).take n = utf8 p ++ w ∧ (∀ b ∈ w, 0x80 ≤ b.toNat) ∧
      (c.toNat < 0x80 → w = []) := by
  induction cs generalizing n with
  | nil => cases h
  | cons c cs ih =>
    by_cases hn : n < (utf8Char c).length
    · have hascii : c.toNat < 0x80 → (utf8Char c).take n = [] := by
        intro hc
        have hone : (utf8Char c).length = 1 := by
          rw [utf8Char, if_pos hc]
          rfl
        rw [List.take_eq_nil_iff]
        omega
      refine ⟨[], c, cs, (utf8Char c).take n, rfl, ?_, ?_, hascii⟩
      · rw [utf8_cons, List.take_append_of_le_length (Nat.le_of_lt hn)]
        rfl
      · intro b hb
        by_cases hc : c.toNat < 0x80
        · rw [hascii hc] at hb
          cases hb
        · exact utf8Char_high (by omega) b (List.mem_of_mem_take hb)
    · rw [utf8_cons, List.length_append] at h
      obtain ⟨p, d, x, w, hcs, ht, hw⟩ := ih (n := n - (utf8Char c).length) (by omega)
      refine ⟨c :: p, d, x, w, by rw [hcs, List.cons_append], ?_, hw⟩
      rw [utf8_cons, List.take_append, List.take_of_length_le (by omega), ht, utf8_cons,
        List.append_assoc]

theorem twoChar_length (a : Nat) (r : Bytes) : (twoChar a r).2 ≤ r.length := by
  cases r with
  | nil => simp [twoChar, oneChar, apply_ite Prod.snd]
  | cons b r =>
    simp only [twoChar, oneChar, List.length_cons]
    split_ifs <;> simp

theorem threeChar_length (a : Nat) (r : Bytes) : (threeChar a r).2 ≤ r.length := by
  match r with
  | [] => exact twoChar_length a _
  | [b] => exact twoChar_length a _
  | b :: c :: r =>
    have htwo := twoChar_length a [b]
    simp only [threeChar, List.length_cons, List.length_nil] at htwo ⊢
    split
    · dsimp only
      omega
    · omega

theorem firstChar_length (a : Nat) (r : Bytes) : (firstChar a r).2 ≤ r.length := by
  match r with
  | [] => exact threeChar_length a _
  | [b] => exact threeChar_length a _
  | [b, c] => exact threeChar_length a _
  | b :: c :: d :: r =>
    have hthree := threeChar_length a [b, c]
    simp only [firstChar, List.length_cons, List.length_nil] at hthree ⊢
    split
    · dsimp only
      omega
    · omega

theorem continues_ascii {x : UInt8} (hx : x.toNat < 0x80) : continues x.toNat = false := by
  simp only [continues, Bool.and_eq_false_iff, decide_eq_false_iff_not]
  omega

/-- The continuation bytes that some bytes start with. -/
def lead (b : Bytes) : Bytes := b.takeWhile (fun x => continues x.toNat)

theorem lead_cons_of_ascii {x : UInt8} (hx : x.toNat < 0x80) (t : Bytes) : lead (x :: t) = [] := by
  rw [lead, List.takeWhile_cons, continues_ascii hx]
  rfl

/-- What a character is read from ends with the continuation bytes. -/
theorem firstChar_lead (a : Nat) (r : Bytes) : firstChar a (lead r) = firstChar a r := by
  have hstop : ∀ b : UInt8, continues b.toNat = false → ∀ t, firstChar a (b :: t) = firstChar a [] := by
    intro b hb t
    match t with
    | [] => simp [firstChar, threeChar, twoChar, hb]
    | [c] => simp [firstChar, threeChar, twoChar, hb]
    | c :: d :: t => simp [firstChar, threeChar, twoChar, hb]
  have hstop' : ∀ b c : UInt8, continues c.toNat = false → ∀ t,
      firstChar a (b :: c :: t) = firstChar a [b] := by
    intro b c hc t
    cases t with
    | nil => simp [firstChar, threeChar, hc]
    | cons d t => simp [firstChar, threeChar, hc]
  match r with
  | [] => rfl
  | b :: r =>
    cases hb : continues b.toNat with
    | false => simp [lead, hb, hstop b hb]
    | true =>
      match r with
      | [] => simp [lead, hb]
      | c :: r =>
        cases hc : continues c.toNat with
        | false => simp [lead, hb, hc, hstop' b c hc]
        | true =>
          match r with
          | [] => simp [lead, hb, hc]
          | d :: r =>
            cases hd : continues d.toNat with
            | false => simp [lead, hb, hc, hd, firstChar]
            | true => simp [lead, hb, hc, hd, firstChar]

/-- No character goes on over an ASCII byte. -/
theorem firstChar_break (a : Nat) (r : Bytes) {x : UInt8} (hx : x.toNat < 0x80) (t : Bytes) :
    firstChar a (r ++ x :: t) = firstChar a r := by
  have hlead : lead (r ++ x :: t) = lead r := by
    have hnil : (x :: t).takeWhile (fun x => continues x.toNat) = [] := lead_cons_of_ascii hx t
    rw [lead, List.takeWhile_append, hnil]
    split
    · rename_i hall
      rw [List.append_nil, lead]
      exact ((List.takeWhile_prefix _).eq_of_length hall).symm
    · rfl
  rw [← firstChar_lead, hlead, firstChar_lead]

theorem decodeFrom_break {k : Nat} {b : Bytes} (hk : k ≤ b.length) {x : UInt8} (hx : x.toNat < 0x80)
    (t : Bytes) : decodeFrom k (b ++ x :: t) = decodeFrom k b ++ decodeFrom 0 (x :: t) := by
  induction b generalizing k with
  | nil =>
    obtain rfl : k = 0 := Nat.le_zero.mp hk
    rfl
  | cons a b ih =>
    cases k with
    | zero =>
      rw [List.cons_append, decodeFrom, decodeFrom, firstChar_break a.toNat b hx t,
        ih (firstChar_length a.toNat b), List.cons_append]
    | succ k => exact ih (Nat.le_of_succ_le_succ hk)

/-- Bytes before an ASCII byte are decoded by themselves. -/
theorem decode_break (b : Bytes) {x : UInt8} (hx : x.toNat < 0x80) (t : Bytes) :
    decodeUtf8 (b ++ x :: t) = decodeUtf8 b ++ Char.ofNat x.toNat :: decodeUtf8 t := by
  have hfirst : firstChar x.toNat t = (Char.ofNat x.toNat, 0) := by
    rw [firstChar_small (by omega), threeChar_small (by omega), twoChar_small (by omega), oneChar, if_pos hx]
  rw [decodeUtf8, decodeFrom_break (Nat.zero_le _) hx t, decodeFrom, hfirst]
  rfl

theorem utf8_injective : Function.Injective utf8 := Function.LeftInverse.injective decode_utf8

end Switchboard.Text
