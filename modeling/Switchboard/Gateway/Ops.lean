import Switchboard.Effect.Program
import Switchboard.Gateway.Idempotency
import Switchboard.Gateway.Stream

namespace Switchboard.Gateway
open Text

/-- The record of one request that telemetry is told. -/
structure Event where
  id : String := ""
  requestID : String := ""
  traceID : String := ""
  spanID : String := ""
  parentID : String := ""
  provider : String := ""
  status : Int := 0
  attempts : Int := 0
  start : Int := 0
  finish : Int := 0
  policyVersion : Int := 0
  model : String := ""
  fault : String := ""
  replayed : Bool := false
  budgetSkipped : List String := []
  streamFailed : Bool := false
  usage : TokenUsage := {}
deriving DecidableEq, Repr

structure CaptureRecord where
  requestID : String
  traceID : String
  policyVersion : Int
  provider : String
  model : String
  attempts : Int
  status : Int
  fault : String
  stored : Int
  prompt : Option Bytes
  completion : Option Json
  text : String

/-- How a request to a provider ends: without a response, or with one. -/
inductive Outcome where
  | failed
  | response (status : Int) (retryAfter contentType : String) (body : Body)
deriving DecidableEq, Repr

/-- A question the server's state answers, or the client's connection. `wait` asks
whether the time passed before the request's context ended. -/
inductive Ask where
  | draining
  | policyExpired
  | rateAllow
  | retryAllow
  | acquireSlot
  | budgetSkip (k : BudgetKey) (budget : Int)
  | fleetUnhealthy (provider : String)
  | temperatureOmitted (k : BudgetKey)
  | worthCaching (system : String)
  | wait (d : Int)
  | clientGone
deriving DecidableEq, Repr

/-- What the server is told. -/
inductive Tell where
  | releaseSlot
  | count (m : Metric) (n : Int)
  | budgetObserve (k : BudgetKey) (budget : Int) (producedText : Bool)
  | share (provider : String) (f : Fault)
  | temperatureObserve (k : BudgetKey)
  | markHealthy (provider : String)
  | markUnhealthy (provider : String)
  | observeRoute (provider model : String) (status ms : Int) (u : TokenUsage)
  | emit (e : Event)
  | capture (r : CaptureRecord)

/-- The atomic steps of a request. `awaitPolicy` is the last round of the loop that asks
for a policy every second until there is one. -/
inductive Op where
  | now
  | randomID (n : Nat)
  | syncState
  | currentPolicy
  | awaitPolicy
  | ask (o : Ask)
  | tell (o : Tell)
  | wouldAllow (provider : String)
  | allow (provider : String)
  | settle (provider : String) (s : Settlement)
  | beginKey (key : String) (body : Bytes)
  | finishKey (key : String) (e : IdemEntry)
  | releaseKey (key : String)
  | setHeader (name value : String)
  | delHeader (name : String)
  | writeHeader (status : Int)
  | write (b : Bytes)
  | readBody
  | sign (u : Upstream)
  | send (u : Upstream)

abbrev Ans : Op → Type
  | .now => Int
  | .randomID _ => String
  | .syncState => String
  | .currentPolicy => Option Policy
  | .awaitPolicy => Option Policy
  | .ask _ => Bool
  | .tell _ => Unit
  | .wouldAllow _ => Bool
  | .allow _ => Bool
  | .settle _ _ => Unit
  | .beginKey _ _ => Except StoreError (Option IdemEntry)
  | .finishKey _ _ => Unit
  | .releaseKey _ => Unit
  | .setHeader _ _ => Unit
  | .delHeader _ => Unit
  | .writeHeader _ => Unit
  | .write _ => Bool
  | .readBody => Option Bytes
  | .sign _ => Option (List (String × String))
  | .send _ => Outcome

abbrev M (α : Type) : Type := Effect.Prog Op Ans α

def now : M Int := Effect.Prog.call Op.now

def randomID (n : Nat) : M String := Effect.Prog.call (Op.randomID n)

def syncState : M String := Effect.Prog.call Op.syncState

def currentPolicy : M (Option Policy) := Effect.Prog.call Op.currentPolicy

def awaitPolicy : M (Option Policy) := Effect.Prog.call Op.awaitPolicy

def ask (o : Ask) : M Bool := Effect.Prog.call (Op.ask o)

def tell (o : Tell) : M Unit := Effect.Prog.call (Op.tell o)

def tellIf (b : Bool) (o : Tell) : M Unit := if b then tell o else pure ()

def wouldAllow (provider : String) : M Bool := Effect.Prog.call (Op.wouldAllow provider)

def allow (provider : String) : M Bool := Effect.Prog.call (Op.allow provider)

def settle (provider : String) (s : Settlement) : M Unit :=
  Effect.Prog.call (Op.settle provider s)

def beginKey (key : String) (body : Bytes) : M (Except StoreError (Option IdemEntry)) :=
  Effect.Prog.call (Op.beginKey key body)

def finishKey (key : String) (e : IdemEntry) : M Unit := Effect.Prog.call (Op.finishKey key e)

def releaseKey (key : String) : M Unit := Effect.Prog.call (Op.releaseKey key)

def setHeader (name value : String) : M Unit := Effect.Prog.call (Op.setHeader name value)

def delHeader (name : String) : M Unit := Effect.Prog.call (Op.delHeader name)

def writeHeader (status : Int) : M Unit := Effect.Prog.call (Op.writeHeader status)

/-- Bytes for the client, and whether they could be sent. -/
def write (b : Bytes) : M Bool := Effect.Prog.call (Op.write b)

def readBody : M (Option Bytes) := Effect.Prog.call Op.readBody

def sign (u : Upstream) : M (Option (List (String × String))) := Effect.Prog.call (Op.sign u)

def send (u : Upstream) : M Outcome := Effect.Prog.call (Op.send u)

end Switchboard.Gateway
