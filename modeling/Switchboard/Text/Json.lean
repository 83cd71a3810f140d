import Switchboard.Text.Utf8

namespace Switchboard.Text

/-- A JSON value. Numbers keep the literal they were written with, and objects
keep their members in order, duplicates included. -/
inductive Json where
  | null
  | bool (b : Bool)
  | num (lit : List Char)
  | str (s : String)
  | arr (xs : List Json)
  | obj (fs : List (String × Json))
deriving Repr, Inhabited

namespace Json

def isBlank (c : Char) : Bool := c == ' ' || c == '\t' || c == '\n' || c == '\r'

def skip (cs : List Char) : List Char := cs.dropWhile isBlank

def hexDigit (c : Char) : Option Nat :=
  if '0' ≤ c && c ≤ '9' then some (c.toNat - '0'.toNat)
  else if 'a' ≤ c && c ≤ 'f' then some (c.toNat - 'a'.toNat + 10)
  else if 'A' ≤ c && c ≤ 'F' then some (c.toNat - 'A'.toNat + 10)
  else none

def hex4 (a b c d : Char) : Option Nat := do
  let a ← hexDigit a
  let b ← hexDigit b
  let c ← hexDigit c
  let d ← hexDigit d
  return a * 4096 + b * 256 + c * 16 + d

/-- What a single-character escape stands for. -/
def simpleEscape (c : Char) : Option Nat :=
  if c = '"' || c = '\\' || c = '/' then some c.toNat
  else if c = 'b' then some 8
  else if c = 'f' then some 12
  else if c = 'n' then some 10
  else if c = 'r' then some 13
  else if c = 't' then some 9
  else none

/-- The code units of a string literal, from behind its opening quote to its
closing one, and what follows. -/
def stringUnits : List Char → Option (List Nat × List Char)
  | [] => none
  | c :: r =>
    if c = '"' then some ([], r)
    else if c = '\\' then
      match r with
      | [] => none
      | e :: r =>
        if e = 'u' then
          match r with
          | w :: x :: y :: z :: r =>
            match hex4 w x y z with
            | none => none
            | some n => (stringUnits r).map (fun p => (n :: p.1, p.2))
          | _ => none
        else
          match simpleEscape e with
          | none => none
          | some n => (stringUnits r).map (fun p => (n :: p.1, p.2))
    else if c.toNat < 0x20 then none
    else (stringUnits r).map (fun p => (c.toNat :: p.1, p.2))

def isHigh (n : Nat) : Bool := 0xD800 ≤ n && n ≤ 0xDBFF
def isLow (n : Nat) : Bool := 0xDC00 ≤ n && n ≤ 0xDFFF

/-- Surrogate pairs are joined, and a lone surrogate is replaced. -/
def joinUnits : List Nat → List Char
  | [] => []
  | [n] => [if isHigh n || isLow n then replacement else Char.ofNat n]
  | n :: m :: r =>
    if isHigh n && isLow m then
      Char.ofNat (0x10000 + (n - 0xD800) * 1024 + (m - 0xDC00)) :: joinUnits r
    else (if isHigh n || isLow n then replacement else Char.ofNat n) :: joinUnits (m :: r)

def string (cs : List Char) : Option (String × List Char) :=
  (stringUnits cs).map (fun p => (String.ofList (joinUnits p.1), p.2))

/-- An optional part of a number: nothing, or a lead followed by digits. -/
def fraction : List Char → Option (List Char × List Char)
  | '.' :: r =>
    let (ds, r) := r.span Char.isDigit
    if ds = [] then none else some ('.' :: ds, r)
  | r => some ([], r)

def exponent : List Char → Option (List Char × List Char)
  | c :: r =>
    if c = 'e' ∨ c = 'E' then
      let (sign, r) := match r with
        | '+' :: r => (['+'], r)
        | '-' :: r => (['-'], r)
        | r => ([], r)
      let (ds, r) := r.span Char.isDigit
      if ds = [] then none else some (c :: sign ++ ds, r)
    else some ([], c :: r)
  | [] => some ([], [])

def minus : List Char → List Char × List Char
  | [] => ([], [])
  | c :: r => if c = '-' then ([c], r) else ([], c :: r)

/-- The literal of a number, and what follows. -/
def number (cs : List Char) : Option (List Char × List Char) := do
  let (sign, r) := minus cs
  let (int, r) := r.span Char.isDigit
  if int = [] ∨ (int.head? = some '0' ∧ 1 < int.length) then none
  else
    let (frac, r) ← fraction r
    let (exp, r) ← exponent r
    return (sign ++ int ++ frac ++ exp, r)

/-- A literal such as `null`, of which the first character has been seen. -/
def keyword (word : List Char) (j : Json) (cs : List Char) : Option (Json × List Char) :=
  if word.isPrefixOf cs then some (j, cs.drop word.length) else none

mutual
/-- One value, leading blanks included, and what follows it. -/
def value : Nat → List Char → Option (Json × List Char)
  | 0, _ => none
  | n + 1, cs =>
    match skip cs with
    | [] => none
    | c :: r =>
      if c = '{' then
        match skip r with
        | [] => none
        | d :: r' =>
          if d = '}' then some (.obj [], r')
          else (members n r).map (fun p => (.obj p.1, p.2))
      else if c = '[' then
        match skip r with
        | [] => none
        | d :: r' =>
          if d = ']' then some (.arr [], r')
          else (elements n r).map (fun p => (.arr p.1, p.2))
      else if c = '"' then (string r).map (fun p => (.str p.1, p.2))
      else if c = 'n' then keyword ['u', 'l', 'l'] .null r
      else if c = 't' then keyword ['r', 'u', 'e'] (.bool true) r
      else if c = 'f' then keyword ['a', 'l', 's', 'e'] (.bool false) r
      else (number (c :: r)).map (fun p => (.num p.1, p.2))
/-- The elements of an array, at least one, up to its closing bracket. -/
def elements : Nat → List Char → Option (List Json × List Char)
  | 0, _ => none
  | n + 1, cs =>
    match value n cs with
    | none => none
    | some (x, r) =>
      match skip r with
      | [] => none
      | c :: r =>
        if c = ',' then (elements n r).map (fun p => (x :: p.1, p.2))
        else if c = ']' then some ([x], r)
        else none
/-- The members of an object, at least one, up to its closing brace. -/
def members : Nat → List Char → Option (List (String × Json) × List Char)
  | 0, _ => none
  | n + 1, cs =>
    match member n cs with
    | none => none
    | some (f, r) =>
      match skip r with
      | [] => none
      | c :: r =>
        if c = ',' then (members n r).map (fun p => (f :: p.1, p.2))
        else if c = '}' then some ([f], r)
        else none
def member : Nat → List Char → Option ((String × Json) × List Char)
  | 0, _ => none
  | n + 1, cs =>
    match skip cs with
    | [] => none
    | c :: r =>
      if c = '"' then
        match string r with
        | none => none
        | some (k, r) =>
          match skip r with
          | [] => none
          | c :: r => if c = ':' then (value n r).map (fun p => ((k, p.1), p.2)) else none
      else none
end

/-- One value and nothing but blanks around it. Every call consumes a character,
so the length of the text is fuel enough. -/
def parse (cs : List Char) : Option Json :=
  match value (cs.length + 1) cs with
  | some (j, r) => if skip r = [] then some j else none
  | none => none

end Json

end Switchboard.Text
