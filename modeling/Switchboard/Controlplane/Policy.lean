import Switchboard.Gateway.Policy

namespace Switchboard.Controlplane
open Text Gateway

/-- A value as `json.loads` returns it. A float is never written back here, so it
keeps its literal. -/
inductive Py where
  | none
  | bool (b : Bool)
  | int (n : Int)
  | float (lit : List Char)
  | str (s : String)
  | list (xs : List Py)
  | dict (items : List (String × Py))
deriving Inhabited

/-- `d[k] = v`: a key keeps its first position and takes the last value. -/
def setItem (k : String) (v : β) : List (String × β) → List (String × β)
  | [] => [(k, v)]
  | (k', v') :: d => if k' = k then (k, v) :: d else (k', v') :: setItem k v d

mutual
def loads : Json → Py
  | .null => .none
  | .bool b => .bool b
  | .num lit =>
    match Json.intOf lit with
    | some n => .int n
    | none => .float lit
  | .str s => .str s
  | .arr xs => .list (loadsElems xs)
  | .obj fs => .dict (loadsFields [] fs)
termination_by structural x => x
def loadsElems : List Json → List Py
  | [] => []
  | x :: xs => loads x :: loadsElems xs
termination_by structural x => x
def loadsFields (d : List (String × Py)) : List (String × Json) → List (String × Py)
  | [] => d
  | f :: fs => loadsFields (setItem f.1 (loadsField f) d) fs
termination_by structural x => x
def loadsField : String × Json → Py
  | (_, v) => loads v
termination_by structural x => x
end

mutual
/-- The value `json.dumps` writes with `sort_keys`. -/
def sorted : Py → Json
  | .none => .null
  | .bool b => .bool b
  | .int n => Json.int n
  | .float lit => .num lit
  | .str s => .str s
  | .list xs => .arr (sortedElems xs)
  | .dict d => .obj (sortKeys (sortedItems d))
termination_by structural x => x
def sortedElems : List Py → List Json
  | [] => []
  | x :: xs => sorted x :: sortedElems xs
termination_by structural x => x
def sortedItems : List (String × Py) → List (String × Json)
  | [] => []
  | f :: fs => sortedItem f :: sortedItems fs
termination_by structural x => x
def sortedItem : String × Py → String × Json
  | (k, v) => (k, sorted v)
termination_by structural x => x
end

/-- How `json.dumps` writes a character; with `ensure_ascii` everything outside
the printable ASCII range is escaped. -/
def escape (ensureAscii : Bool) (c : Char) : List Char :=
  if c = '"' || c = '\\' then ['\\', c]
  else if c = '\n' then ['\\', 'n']
  else if c = '\r' then ['\\', 'r']
  else if c = '\t' then ['\\', 't']
  else if c.toNat = 8 then ['\\', 'b']
  else if c.toNat = 12 then ['\\', 'f']
  else if c.toNat < 0x20 then GoJson.unicodeEscape c.toNat
  else if !ensureAscii || c.toNat < 0x7f then [c]
  else if c.toNat < 0x10000 then GoJson.unicodeEscape c.toNat
  else
    GoJson.unicodeEscape (0xd800 + (c.toNat - 0x10000) / 1024) ++
      GoJson.unicodeEscape (0xdc00 + (c.toNat - 0x10000) % 1024)

/-- Why a document is refused. The last three are not `ValueError`s of this file:
a missing tenant, a tenant that is not a string, a seed of the wrong length. -/
inductive Refusal where
  | invalidPolicyFields
  | policyNumbers
  | invalidTenantSchema
  | invalidVersion
  | invalidLifetime
  | routesRequired
  | invalidRouteFields
  | invalidProvider
  | invalidModel
  | invalidKeyID
  | noTenant
  | tenantNotString
  | badSeed
deriving DecidableEq, Repr

def Refusal.text : Refusal → Option String
  | .invalidPolicyFields => some "invalid policy fields"
  | .policyNumbers => some "policy numbers must be integers"
  | .invalidTenantSchema => some "invalid tenant/schema"
  | .invalidVersion => some "invalid version"
  | .invalidLifetime => some "invalid policy lifetime (maximum seven days)"
  | .routesRequired => some "one to four routes required"
  | .invalidRouteFields => some "invalid route fields"
  | .invalidProvider => some "invalid or repeated provider"
  | .invalidModel => some "invalid model identifier"
  | .invalidKeyID => some "invalid signing key ID"
  | .noTenant => none
  | .tenantNotString => none
  | .badSeed => none

abbrev Dict := List (String × Py)

/-- `set(d) == {...}`. -/
def keysAre (d : Dict) (names : List String) : Bool :=
  d.all (fun f => names.contains f.1) && names.all (fun k => (d.map Prod.fst).contains k)

def isInt (d : Dict) (k : String) : Bool :=
  match d.lookup k with
  | some (.int _) => true
  | _ => false

/-- `d[k]` where it is known to be an integer. -/
def intAt (d : Dict) (k : String) : Int :=
  match d.lookup k with
  | some (.int n) => n
  | _ => 0

def isStr (d : Dict) (k s : String) : Bool :=
  match d.lookup k with
  | some (.str s') => s' == s
  | _ => false

def providers : List String := ["openai", "anthropic", "gemini", "bedrock"]

def validateRoutes (seen : List String) : List Py → Except Refusal Unit
  | [] => .ok ()
  | .dict r :: rs =>
    if !keysAre r ["provider", "model"] then .error .invalidRouteFields
    else
      match r.lookup "provider" with
      | some (.str p) =>
        if !providers.contains p || seen.contains p then .error .invalidProvider
        else
          match r.lookup "model" with
          | some (.str m) =>
            if !identifier m then .error .invalidModel else validateRoutes (p :: seen) rs
          | _ => .error .invalidModel
      | _ => .error .invalidProvider
  | _ :: _ => .error .invalidRouteFields

def policyKeys : List String :=
  ["schema", "tenant", "version", "issued_at", "expires_at", "routes"]

def validatePolicy (p : Dict) (tenant : String) (now : Int) : Except Refusal Dict :=
  if !keysAre p policyKeys then .error .invalidPolicyFields
  else if !(["schema", "version", "issued_at", "expires_at"].all (isInt p)) then
    .error .policyNumbers
  else if intAt p "schema" ≠ 1 ∨ isStr p "tenant" tenant = false ∨ identifier tenant = false then
    .error .invalidTenantSchema
  else if ¬(1 ≤ intAt p "version" ∧ intAt p "version" ≤ 9007199254740991) then
    .error .invalidVersion
  else if ¬(1 ≤ intAt p "issued_at" ∧ intAt p "issued_at" ≤ now + 60) ∨
      ¬(max now (intAt p "issued_at") < intAt p "expires_at" ∧
        intAt p "expires_at" ≤ intAt p "issued_at" + 604800) then
    .error .invalidLifetime
  else
    match p.lookup "routes" with
    | some (.list rs) =>
      if ¬(1 ≤ rs.length ∧ rs.length ≤ 4) then .error .routesRequired
      else
        match validateRoutes [] rs with
        | .error e => .error e
        | .ok () => .ok p
    | _ => .error .routesRequired

def canonical (p : Dict) : Bytes := utf8 (Json.print (escape true) (sorted (.dict p)))

/-- `json.loads` of bytes, which have to be UTF-8. -/
def jsonLoads (b : Bytes) : Option Py :=
  if utf8 (decodeUtf8 b) = b then (Json.parse (decodeUtf8 b)).map loads else none

/-- Ed25519, of which it is assumed that a key accepts what its seed signed and
nothing else. -/
structure Ed25519 where
  publicKey : Bytes → Bytes
  sign : Bytes → Bytes → Bytes
  verify : Bytes → Bytes → Bytes → Bool
  verify_iff : ∀ seed m s, seed.length = 32 →
    (verify (publicKey seed) m s = true ↔ s = sign seed m)
  sign_length : ∀ seed m, (sign seed m).length = 64

def sign (ed : Ed25519) (p : Dict) (keyID : String) (seed : Bytes) (now : Int) :
    Except Refusal Envelope :=
  match p.lookup "tenant" with
  | none => .error .noTenant
  | some (.str t) =>
    match validatePolicy p t now with
    | .error e => .error e
    | .ok _ =>
      if !identifier keyID then .error .invalidKeyID
      else if seed.length ≠ 32 then .error .badSeed
      else
        .ok ⟨keyID, String.ofList (Base64.encode (canonical p)),
          String.ofList (Base64.encode (ed.sign seed (signedBytes keyID (canonical p))))⟩
  | some _ => .error .tenantNotString

/-- The envelope as the control plane answers it, compact and in UTF-8. -/
def respond (e : Envelope) : Bytes :=
  utf8 (Json.print (escape false)
    (.obj [("key_id", .str e.keyID), ("payload", .str e.payload), ("signature", .str e.signature)]))

end Switchboard.Controlplane
