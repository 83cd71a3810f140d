import Switchboard.Text.Utf8

namespace Switchboard.Text.Base64

/-- The standard alphabet. -/
def alphabet : List Char :=
  "ABCDEFGHIJKLMNOPQRSTUVWXYZabcdefghijklmnopqrstuvwxyz0123456789+/".toList

def symbol (n : Nat) : Char := alphabet.getD n '='

def index (c : Char) : Option Nat := alphabet.findIdx? (· == c)

def encode : Bytes → List Char
  | [] => []
  | [a] => [symbol (a.toNat / 4), symbol (a.toNat % 4 * 16), '=', '=']
  | [a, b] =>
    [symbol (a.toNat / 4), symbol (a.toNat % 4 * 16 + b.toNat / 16), symbol (b.toNat % 16 * 4), '=']
  | a :: b :: c :: r =>
    symbol (a.toNat / 4) :: symbol (a.toNat % 4 * 16 + b.toNat / 16) ::
      symbol (b.toNat % 16 * 4 + c.toNat / 64) :: symbol (c.toNat % 64) :: encode r

/-- Groups of four. The strict decoder also wants the unused low bits of a padded
group to be zero. -/
def decodeGroups : List Char → Option Bytes
  | [] => some []
  | w :: x :: y :: z :: r =>
    match index w, index x with
    | some i, some j =>
      if y = '=' then
        if z = '=' ∧ r = [] ∧ j % 16 = 0 then some [UInt8.ofNat (i * 4 + j / 16)] else none
      else
        match index y with
        | none => none
        | some k =>
          if z = '=' then
            if r = [] ∧ k % 4 = 0 then
              some [UInt8.ofNat (i * 4 + j / 16), UInt8.ofNat (j % 16 * 16 + k / 4)]
            else none
          else
            match index z with
            | none => none
            | some l =>
              (decodeGroups r).map (fun bs => UInt8.ofNat (i * 4 + j / 16) ::
                UInt8.ofNat (j % 16 * 16 + k / 4) :: UInt8.ofNat (k % 4 * 64 + l) :: bs)
    | _, _ => none
  | _ => none

/-- Line breaks inside the encoding are ignored. -/
def decode (cs : List Char) : Option Bytes :=
  decodeGroups (cs.filter (fun c => c != '\n' && c != '\r'))

/-- The characters an encoding consists of are printable ASCII, without quotes
and backslashes. -/
def Encoded (c : Char) : Prop :=
  (c != '\n' && c != '\r') = true ∧ 0x20 ≤ c.toNat ∧ c.toNat < 0x7F ∧
    c ∉ ['"', '\\', '<', '>', '&']

instance (c : Char) : Decidable (Encoded c) := inferInstanceAs (Decidable (_ ∧ _))

theorem symbol_facts : ∀ n < 64, index (symbol n) = some n ∧ symbol n ≠ '=' ∧
    Encoded (symbol n) := by
  decide

theorem index_symbol {n : Nat} (h : n < 64) : index (symbol n) = some n := (symbol_facts n h).1

theorem symbol_ne_pad {n : Nat} (h : n < 64) : symbol n ≠ '=' := (symbol_facts n h).2.1

theorem ofNat_eq {a : UInt8} {n : Nat} (h : n = a.toNat) : UInt8.ofNat n = a := by
  rw [h, UInt8.ofNat_toNat]

theorem decode_groups_encode : ∀ b : Bytes, decodeGroups (encode b) = some b
  | [] => rfl
  | [a] => by
    have ha := a.toNat_lt_size
    simp only [UInt8.size] at ha
    simp only [encode, decodeGroups, index_symbol (show a.toNat / 4 < 64 by omega),
      index_symbol (show a.toNat % 4 * 16 < 64 by omega), ↓reduceIte, true_and,
      show a.toNat % 4 * 16 % 16 = 0 by omega]
    rw [ofNat_eq (a := a) (by omega)]
  | [a, b] => by
    have ha := a.toNat_lt_size
    have hb := b.toNat_lt_size
    simp only [UInt8.size] at ha hb
    simp only [encode, decodeGroups, index_symbol (show a.toNat / 4 < 64 by omega),
      index_symbol (show a.toNat % 4 * 16 + b.toNat / 16 < 64 by omega),
      index_symbol (show b.toNat % 16 * 4 < 64 by omega),
      symbol_ne_pad (show b.toNat % 16 * 4 < 64 by omega), ↓reduceIte, true_and,
      show b.toNat % 16 * 4 % 4 = 0 by omega]
    rw [ofNat_eq (a := a) (by omega), ofNat_eq (a := b) (by omega)]
  | a :: b :: c :: r => by
    have ha := a.toNat_lt_size
    have hb := b.toNat_lt_size
    have hc := c.toNat_lt_size
    simp only [UInt8.size] at ha hb hc
    simp only [encode, decodeGroups, index_symbol (show a.toNat / 4 < 64 by omega),
      index_symbol (show a.toNat % 4 * 16 + b.toNat / 16 < 64 by omega),
      index_symbol (show b.toNat % 16 * 4 + c.toNat / 64 < 64 by omega),
      index_symbol (show c.toNat % 64 < 64 by omega),
      symbol_ne_pad (show b.toNat % 16 * 4 + c.toNat / 64 < 64 by omega),
      symbol_ne_pad (show c.toNat % 64 < 64 by omega), ↓reduceIte, decode_groups_encode r,
      Option.map_some]
    rw [ofNat_eq (a := a) (by omega), ofNat_eq (a := b) (by omega), ofNat_eq (a := c) (by omega)]

theorem encoded_symbol {n : Nat} (h : n < 64) : Encoded (symbol n) := (symbol_facts n h).2.2

theorem encoded_pad : Encoded '=' := by decide

theorem encode_encoded : ∀ b : Bytes, ∀ c ∈ encode b, Encoded c
  | [] => by simp [encode]
  | [a] => by
    have ha := a.toNat_lt_size
    simp only [UInt8.size] at ha
    simp only [encode, List.forall_mem_cons, List.not_mem_nil, false_implies, implies_true,
      and_true]
    exact ⟨encoded_symbol (by omega), encoded_symbol (by omega), encoded_pad, encoded_pad⟩
  | [a, b] => by
    have ha := a.toNat_lt_size
    have hb := b.toNat_lt_size
    simp only [UInt8.size] at ha hb
    simp only [encode, List.forall_mem_cons, List.not_mem_nil, false_implies, implies_true,
      and_true]
    exact ⟨encoded_symbol (by omega), encoded_symbol (by omega), encoded_symbol (by omega),
      encoded_pad⟩
  | a :: b :: c :: r => by
    have ha := a.toNat_lt_size
    have hb := b.toNat_lt_size
    have hc := c.toNat_lt_size
    simp only [UInt8.size] at ha hb hc
    simp only [encode, List.forall_mem_cons]
    exact ⟨encoded_symbol (by omega), encoded_symbol (by omega), encoded_symbol (by omega),
      encoded_symbol (by omega), encode_encoded r⟩

/-- Strict decoding undoes encoding. -/
theorem decode_encode (b : Bytes) : decode (encode b) = some b := by
  have hf : (encode b).filter (fun c => c != '\n' && c != '\r') = encode b :=
    List.filter_eq_self.mpr (fun c hc => (encode_encoded b c hc).1)
  rw [decode, hf, decode_groups_encode]

theorem encode_length : ∀ b : Bytes, (encode b).length ≤ b.length / 3 * 4 + 4
  | [] => by simp [encode]
  | [a] => by simp [encode]
  | [a, b] => by simp [encode]
  | a :: b :: c :: r => by
    have ih := encode_length r
    simp only [encode, List.length_cons]
    omega

/-- Every group is padded. -/
theorem encode_aligned : ∀ b : Bytes, (encode b).length % 4 = 0
  | [] => rfl
  | [_] => by simp [encode]
  | [_, _] => by simp [encode]
  | _ :: _ :: _ :: r => by
    have ih := encode_aligned r
    simp only [encode, List.length_cons]
    omega

end Switchboard.Text.Base64
