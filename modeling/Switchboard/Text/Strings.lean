import Switchboard.Text.Utf8

namespace Switchboard.Text.Strings

/-- `unicode.IsSpace`. -/
def isSpace (c : Char) : Bool :=
  let n := c.toNat
  decide (9 ≤ n ∧ n ≤ 13) || n == 0x20 || n == 0x85 || n == 0xA0 || n == 0x1680 ||
    decide (0x2000 ≤ n ∧ n ≤ 0x200A) || n == 0x2028 || n == 0x2029 || n == 0x202F ||
    n == 0x205F || n == 0x3000

def trimSpace (cs : List Char) : List Char :=
  ((cs.dropWhile isSpace).reverse.dropWhile isSpace).reverse

/-- Lower case as far as a comparison with ASCII text can tell: besides the capital
letters, the dotted I and the Kelvin sign have an ASCII letter for it. -/
def lowerChar (c : Char) : Char :=
  if 'A'.toNat ≤ c.toNat ∧ c.toNat ≤ 'Z'.toNat then Char.ofNat (c.toNat + 32)
  else if c.toNat = 0x130 then 'i'
  else if c.toNat = 0x212A then 'k'
  else c

def toLower (cs : List Char) : List Char := cs.map lowerChar

def contains [BEq α] (xs part : List α) : Bool := xs.tails.any (fun t => part.isPrefixOf t)

def trimRight (c : Char) (s : String) : String :=
  String.ofList ((s.toList.reverse.dropWhile (· == c)).reverse)

/-- As many characters as fit in `n` bytes. -/
def takeBytes : Nat → List Char → List Char
  | _, [] => []
  | n, c :: cs =>
    if (utf8Char c).length ≤ n then c :: takeBytes (n - (utf8Char c).length) cs else []

def digitOf (c : Char) : Option Nat :=
  if '0'.toNat ≤ c.toNat ∧ c.toNat ≤ '9'.toNat then some (c.toNat - '0'.toNat) else none

def digitsOf (acc : Nat) : List Char → Option Nat
  | [] => some acc
  | c :: cs => (digitOf c).bind (fun d => digitsOf (acc * 10 + d) cs)

def natOf : List Char → Option Nat
  | [] => none
  | c :: cs => digitsOf 0 (c :: cs)

/-- `strconv.Atoi`, which fails outside the 64-bit range. -/
def atoi (cs : List Char) : Option Int :=
  let n : Option Int := match cs with
    | '-' :: r => (natOf r).map (fun n => -(n : Int))
    | '+' :: r => (natOf r).map (fun n => (n : Int))
    | r => (natOf r).map (fun n => (n : Int))
  n.filter (fun n => decide (-9223372036854775808 ≤ n ∧ n ≤ 9223372036854775807))

/-- The decimal digits of a number, `strconv.Itoa`. -/
def itoa (n : Int) : String :=
  if n < 0 then "-" ++ String.ofList (Nat.toDigits 10 n.natAbs)
  else String.ofList (Nat.toDigits 10 n.natAbs)

theorem itoa_ne (n : Int) : itoa n ≠ "" := by
  intro h
  have hlist := congrArg String.toList h
  unfold itoa at hlist
  split at hlist
  · simp at hlist
  · rw [String.toList_ofList] at hlist
    exact Nat.toDigits_ne_nil hlist

theorem itoa_injective : Function.Injective itoa := by
  have hdigits : ∀ a b : Nat, Nat.toDigits 10 a = Nat.toDigits 10 b → a = b := by
    intro a b h
    have hread := congrArg (Nat.ofDigitChars 10 · 0) h
    simpa only [Nat.ofDigitChars_ten_toDigits] using hread
  have hsign : ∀ a b : Nat, '-' :: Nat.toDigits 10 a ≠ Nat.toDigits 10 b := by
    intro a b h
    have hminus : '-' ∈ Nat.toDigits 10 b := h ▸ List.mem_cons_self
    cases Nat.isDigit_of_mem_toDigits (by decide) (by decide) hminus
  intro n m h
  have hlist := congrArg String.toList h
  unfold itoa at hlist
  split at hlist <;> split at hlist <;>
    simp only [String.toList_append, String.toList_ofList] at hlist
  · have habs := hdigits _ _ (List.cons.inj hlist).2
    omega
  · exact absurd hlist (hsign _ _)
  · exact absurd hlist.symm (hsign _ _)
  · have habs := hdigits _ _ hlist
    omega

def hexDigit (n : Nat) : Char := Nat.digitChar n

/-- Two lower-case digits for each byte. -/
def hexEncode (b : Bytes) : String :=
  String.ofList (b.flatMap (fun x => [hexDigit (x.toNat / 16), hexDigit (x.toNat % 16)]))

theorem hexDigit_injective {a b : Nat} (ha : a < 16) (hb : b < 16) (h : hexDigit a = hexDigit b) :
    a = b := by
  have hall : ∀ a < 16, ∀ b < 16, hexDigit a = hexDigit b → a = b := by decide
  exact hall a ha b hb h

theorem hexEncode_injective : Function.Injective hexEncode := by
  intro x y h
  have hflat := String.ofList_injective h
  clear h
  induction x generalizing y with
  | nil =>
    cases y with
    | nil => rfl
    | cons d y => simp at hflat
  | cons c x ih =>
    cases y with
    | nil => simp at hflat
    | cons d y =>
      simp only [List.flatMap_cons, List.cons_append, List.nil_append, List.cons.injEq] at hflat
      obtain ⟨hhigh, hlow, hrest⟩ := hflat
      have hc := c.toNat_lt
      have hd := d.toNat_lt
      have h1 := hexDigit_injective (by omega) (by omega) hhigh
      have h2 := hexDigit_injective (by omega) (by omega) hlow
      have hcd : c = d := UInt8.toNat_inj.mp (by omega)
      rw [hcd, ih hrest]

/-- A text cut at every `c`, the pieces between included when empty. -/
def split (c : Char) : List Char → List (List Char)
  | [] => [[]]
  | d :: cs =>
    if d == c then [] :: split c cs
    else
      match split c cs with
      | [] => [[d]]
      | p :: ps => (d :: p) :: ps

end Switchboard.Text.Strings
