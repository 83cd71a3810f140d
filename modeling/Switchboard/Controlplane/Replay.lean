import Switchboard.Controlplane.Telemetry
import Switchboard.Gateway.Tables

namespace Switchboard.Controlplane
open Text Gateway

/-- What Python supplies: the decoding of base64, and whether the literal of a float stands
for zero. -/
structure Builtins where
  b64decode : List Char → Option Bytes
  zero : List Char → Bool

/-- What a report can fail with. -/
inductive Raised where
  | attributeError
  | typeError
  | stopIteration
deriving DecidableEq, Repr

structure EventRow where
  event : Event
  receivedAt : Int

structure PolicyRow where
  envelope : Envelope
  createdAt : Int

/-- The table `policies` of one tenant, by versions. -/
abbrev PolicyTable := Map Int PolicyRow

structure Reconstruction where
  requestID : String
  receivedAt : Int
  status : Int
  attempts : Int
  provider : String
  policyVersion : Option Int
  traceID : String
  routes : Py := .list []
  consistent : Option Bool := none
  model : Py := .none
  policyError : Option String := none
  policyVersionSignedAt : Option Int := none

/-- `v.get(k, default)`, which only a dictionary has. -/
def getItem (k : String) (default : Py) : Py → Except Raised Py
  | .dict d => .ok ((d.lookup k).getD default)
  | _ => .error .attributeError

/-- `not v`. -/
def falsy (lib : Builtins) : Py → Bool
  | .none => true
  | .bool b => !b
  | .int n => n == 0
  | .float lit => lib.zero lit
  | .str s => s == ""
  | .list xs => xs.isEmpty
  | .dict d => d.isEmpty

/-- What `for r in v` goes through. -/
def elements : Py → Except Raised (List Py)
  | .list xs => .ok xs
  | .str s => .ok (s.toList.map (fun c => .str c.toString))
  | .dict d => .ok (d.map (fun f => .str f.1))
  | _ => .error .typeError

def hashable : Py → Bool
  | .list _ | .dict _ => false
  | _ => true

def isText (s : String) : Py → Bool
  | .str s' => s' == s
  | _ => false

/-- The document of an envelope, empty if it cannot be decoded. -/
def policyDocument (lib : Builtins) (e : Envelope) : Py :=
  let payload := e.payload.toList
  if payload.isEmpty then .dict []
  else
    let padding := List.replicate ((4 - payload.length % 4) % 4) '='
    ((lib.b64decode (payload ++ padding)).bind jsonLoads).getD (.dict [])

def routesOf (lib : Builtins) (e : Envelope) : Except Raised Py :=
  getItem "routes" (.list []) (policyDocument lib e)

/-- `r.get("provider")` as a member of a set. -/
def providerOf (r : Py) : Except Raised Py := do
  let p ← getItem "provider" .none r
  if hashable p then .ok p else .error .typeError

/-- The model of the first route that names the provider. -/
def servedModel (served : String) : List Py → Except Raised Py
  | [] => .error .stopIteration
  | r :: rs => do
    if isText served (← getItem "provider" .none r) then getItem "model" .none r
    else servedModel served rs

def reconstruct (lib : Builtins) (ev : EventRow) (pol : Option PolicyRow) :
    Except Raised Reconstruction :=
  let e := ev.event
  let out : Reconstruction := {
    requestID := e.requestID, receivedAt := ev.receivedAt, status := e.status
    attempts := e.attempts, provider := e.provider, policyVersion := e.policyVersion
    traceID := e.traceID }
  match pol with
  | none => .ok out
  | some pol => do
    let routes ← routesOf lib pol.envelope
    let out := { out with policyVersionSignedAt := some pol.createdAt, routes := routes }
    if falsy lib routes then
      return { out with policyError := some "envelope payload could not be decoded" }
    if e.provider = "" then return out
    let rs ← elements routes
    if (← rs.mapM providerOf).any (isText e.provider) then
      return { out with consistent := some true, model := ← servedModel e.provider rs }
    return { out with consistent := some false }

/-- `WHERE version=%s`, not asked without a version. -/
def PolicyTable.row (t : PolicyTable) (version : Option Int) : Option PolicyRow :=
  match version with
  | none => none
  | some v => if v = 0 then none else t.lookup v

end Switchboard.Controlplane
