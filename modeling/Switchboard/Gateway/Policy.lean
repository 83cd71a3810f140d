import Switchboard.Text.Base64
import Switchboard.Text.GoJson

namespace Switchboard.Gateway
open Text

def alphanumeric (c : Char) : Bool :=
  decide ('A'.toNat ≤ c.toNat ∧ c.toNat ≤ 'Z'.toNat) ||
    decide ('a'.toNat ≤ c.toNat ∧ c.toNat ≤ 'z'.toNat) ||
    decide ('0'.toNat ≤ c.toNat ∧ c.toNat ≤ '9'.toNat)

def identifierChar (c : Char) : Bool :=
  alphanumeric c || c == '_' || c == '.' || c == ':' || c == '-'

/-- `^[A-Za-z0-9][A-Za-z0-9_.:-]{0,127}$`, the same expression in both languages. -/
def identifier (s : String) : Bool :=
  match s.toList with
  | [] => false
  | c :: cs => alphanumeric c && decide (cs.length ≤ 127) && cs.all identifierChar

structure Route where
  provider : String := ""
  model : String := ""
deriving DecidableEq, Repr

structure Policy where
  schema : Int := 0
  tenant : String := ""
  version : Int := 0
  issuedAt : Int := 0
  expiresAt : Int := 0
  routes : List Route := []
deriving DecidableEq, Repr

structure Envelope where
  keyID : String := ""
  payload : String := ""
  signature : String := ""
deriving DecidableEq, Repr

def routeFields : List (GoJson.Field Route) :=
  [GoJson.field "provider" Route.provider (fun r s => { r with provider := s }) GoJson.string,
   GoJson.field "model" Route.model (fun r s => { r with model := s }) GoJson.string]

def policyFields : List (GoJson.Field Policy) :=
  [GoJson.field "schema" Policy.schema (fun p n => { p with schema := n }) GoJson.int64,
   GoJson.field "tenant" Policy.tenant (fun p s => { p with tenant := s }) GoJson.string,
   GoJson.field "version" Policy.version (fun p n => { p with version := n }) GoJson.int64,
   GoJson.field "issued_at" Policy.issuedAt (fun p n => { p with issuedAt := n }) GoJson.int64,
   GoJson.field "expires_at" Policy.expiresAt (fun p n => { p with expiresAt := n }) GoJson.int64,
   GoJson.field "routes" Policy.routes (fun p rs => { p with routes := rs })
     (GoJson.slice {} (GoJson.struct true routeFields))]

def envelopeFields : List (GoJson.Field Envelope) :=
  [GoJson.field "key_id" Envelope.keyID (fun e s => { e with keyID := s }) GoJson.string,
   GoJson.field "payload" Envelope.payload (fun e s => { e with payload := s }) GoJson.string,
   GoJson.field "signature" Envelope.signature (fun e s => { e with signature := s }) GoJson.string]

/-- One value of the struct, no unknown field, and nothing behind it. -/
def strictJSON (zero : α) (fields : List (GoJson.Field α)) (b : Bytes) : Option α :=
  GoJson.unmarshal zero (GoJson.struct true fields) b

def canonicalRoute (r : Route) : Json :=
  GoJson.map [("model", .str r.model), ("provider", .str r.provider)]

def canonicalJson (p : Policy) : Json :=
  GoJson.map [("schema", Json.int p.schema), ("tenant", .str p.tenant),
    ("version", Json.int p.version), ("issued_at", Json.int p.issuedAt),
    ("expires_at", Json.int p.expiresAt), ("routes", .arr (p.routes.map canonicalRoute))]

def canonical (p : Policy) : Bytes := GoJson.marshal (canonicalJson p)

def policySchema : Int := 1

def schemaSupported (n ceiling : Int) : Bool := decide (1 ≤ n ∧ n ≤ ceiling)

inductive PolicyError where
  | invalidEnvelope
  | untrustedSigningKey
  | corruptPayload
  | corruptSignature
  | invalidSignature
  | noncanonicalPolicy
  | invalidPolicyConstraints
  | invalidRoute
  | policyRollback
  | versionEquivocation
  | notPersisted
deriving DecidableEq, Repr

/-- The texts made here; the others are those of `base64` and of the file system. -/
def PolicyError.text : PolicyError → Option String
  | .invalidEnvelope => some "invalid envelope"
  | .untrustedSigningKey => some "untrusted signing key"
  | .corruptPayload => none
  | .corruptSignature => none
  | .invalidSignature => some "invalid signature"
  | .noncanonicalPolicy => some "noncanonical policy"
  | .invalidPolicyConstraints => some "invalid policy constraints"
  | .invalidRoute => some "invalid route"
  | .policyRollback => some "policy rollback"
  | .versionEquivocation => some "version equivocation"
  | .notPersisted => none

structure PolicyStore where
  current : Option Policy := none
  raw : Bytes := []
  tenant : String
  keys : String → Option Bytes

def ascii (s : String) : Bytes := utf8 s.toList

/-- The bytes an envelope's signature is over. -/
def signedBytes (keyID : String) (payload : Bytes) : Bytes :=
  ascii "switchboard-policy-v1\n" ++ ascii keyID ++ ascii "\n" ++ payload

def knownProvider (p : String) : Bool :=
  p == "openai" || p == "anthropic" || p == "gemini" || p == "bedrock"

def validRoutes (seen : List String) : List Route → Bool
  | [] => true
  | r :: rs =>
    if !knownProvider r.provider || !identifier r.model || seen.contains r.provider then false
    else validRoutes (r.provider :: seen) rs

/-- Two's complement in 64 bits. -/
def wrap64 (n : Int) : Int := (n + 9223372036854775808) % 18446744073709551616 - 9223372036854775808

theorem wrap64_of_fits {n : Int} (hlow : -9223372036854775808 ≤ n) (hhigh : n ≤ 9223372036854775807) :
    wrap64 n = n := by
  unfold wrap64
  omega

theorem inInt64_wrap64 (n : Int) : GoJson.inInt64 (wrap64 n) = true := by
  have hrange : -9223372036854775808 ≤ wrap64 n ∧ wrap64 n ≤ 9223372036854775807 := by
    unfold wrap64
    omega
  exact decide_eq_true hrange

/-- The order of the checks is the source's; `&&` stops where `||` does there. -/
def constraintsHold (tenant : String) (now : Int) (allowExpired : Bool) (p : Policy) : Bool :=
  schemaSupported p.schema policySchema && p.tenant == tenant && identifier p.tenant &&
    decide (1 ≤ p.version) && decide (p.version ≤ 9007199254740991) &&
    decide (p.issuedAt ≤ wrap64 (now + 60)) && decide (1 ≤ p.issuedAt) &&
    (allowExpired || decide (now < p.expiresAt)) && decide (p.issuedAt < p.expiresAt) &&
    decide (wrap64 (p.expiresAt - p.issuedAt) ≤ 604800) &&
    decide (1 ≤ p.routes.length) && decide (p.routes.length ≤ 4)

section
variable (ed25519Verify : Bytes → Bytes → Bytes → Bool)

def PolicyStore.verify (s : PolicyStore) (raw : Bytes) (now : Int) (allowExpired : Bool) :
    Except PolicyError Policy :=
  if 65536 < raw.length then .error .invalidEnvelope
  else
    match strictJSON {} envelopeFields raw with
    | none => .error .invalidEnvelope
    | some e =>
      match s.keys e.keyID with
      | none => .error .untrustedSigningKey
      | some key =>
        if !identifier e.keyID then .error .untrustedSigningKey
        else
          match Base64.decode e.payload.toList with
          | none => .error .corruptPayload
          | some b =>
            match Base64.decode e.signature.toList with
            | none => .error .corruptSignature
            | some sig =>
              if !ed25519Verify key (signedBytes e.keyID b) sig then .error .invalidSignature
              else
                match strictJSON {} policyFields b with
                | none => .error .noncanonicalPolicy
                | some p =>
                  if b != canonical p then .error .noncanonicalPolicy
                  else if !constraintsHold s.tenant now allowExpired p then
                    .error .invalidPolicyConstraints
                  else if !validRoutes [] p.routes then .error .invalidRoute
                  else .ok p

/-- Installing a policy, under the store's lock. -/
def PolicyStore.install (s : PolicyStore) (p : Policy) (raw : Bytes) : PolicyStore :=
  { s with current := some p, raw := raw }

def PolicyStore.restore (s : PolicyStore) (raw : Bytes) (now : Int) :
    Except PolicyError PolicyStore :=
  match s.verify ed25519Verify raw now true with
  | .error e => .error e
  | .ok p => .ok (s.install p raw)

/-- What `Apply` decides about a verified policy once it holds the lock: refuse it,
leave the one in force (`false`), or go on to install it. -/
def PolicyStore.supersedes (s : PolicyStore) (p : Policy) : Except PolicyError Bool :=
  match s.current with
  | none => .ok true
  | some q =>
    if p.version < q.version then .error .policyRollback
    else if p.version = q.version then
      if canonical p != canonical q then .error .versionEquivocation else .ok false
    else .ok true

/-- `written` is what `atomicFile` would report. -/
def PolicyStore.apply (s : PolicyStore) (raw : Bytes) (now : Int) (persist written : Bool) :
    Except PolicyError PolicyStore :=
  match s.verify ed25519Verify raw now false with
  | .error e => .error e
  | .ok p =>
    match s.supersedes p with
    | .error e => .error e
    | .ok false => .ok s
    | .ok true => if persist && !written then .error .notPersisted else .ok (s.install p raw)

end

def PolicyStore.Current (s : PolicyStore) (now : Int) : Option Policy :=
  match s.current with
  | none => none
  | some p => if p.expiresAt ≤ now then none else some p

end Switchboard.Gateway
