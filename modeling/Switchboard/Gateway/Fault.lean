import Switchboard.Text.Strings
import Switchboard.Gateway.Circuit
import Switchboard.Gateway.Policy

namespace Switchboard.Gateway
open Text

/-- Why a provider refused a request, as the routing loop tells them apart. -/
inductive Fault where
  | terminal
  | rateLimit
  | account
  | degraded
  | refused
deriving DecidableEq, Repr

def Fault.string : Fault → String
  | .terminal => "terminal"
  | .rateLimit => "rate_limit"
  | .account => "account"
  | .degraded => "degraded"
  | .refused => "refused"

def accountPhrases : List String :=
  ["no credits remaining",
   "credit balance is too low",
   "exceeded your current quota",
   "check your plan and billing",
   "purchase credits",
   "add credits",
   "billing details",
   "insufficient_quota",
   "insufficient funds"]

def accountExhausted (body : Bytes) : Bool :=
  let lower := Strings.toLower (Strings.trimSpace (decodeUtf8 (body.take 4096)))
  accountPhrases.any (fun p => Strings.contains lower p.toList)

def classify (status : Int) (body : Bytes) : Fault :=
  if status = 503 then .degraded
  else if status = 429 then if accountExhausted body then .account else .rateLimit
  else if status = 400 ∨ status = 422 then if accountExhausted body then .account else .terminal
  else if status = 401 ∨ status = 403 ∨ status = 404 then .refused
  else .terminal

structure ReasonError where
  message : String := ""

structure Reason where
  error : ReasonError := {}
  message : String := ""

def reasonErrorFields : List (GoJson.Field ReasonError) :=
  [GoJson.field "message" ReasonError.message (fun e s => { e with message := s }) GoJson.string]

def reasonFields : List (GoJson.Field Reason) :=
  [GoJson.field "error" Reason.error (fun w e => { w with error := e })
     (GoJson.struct false reasonErrorFields),
   GoJson.field "message" Reason.message (fun w s => { w with message := s }) GoJson.string]

/-- The provider's own words, in at most 300 bytes, or the empty text. -/
def providerReason (body : Bytes) : String :=
  match GoJson.unmarshal ({} : Reason) (GoJson.struct false reasonFields) (body.take 8192) with
  | none => ""
  | some w =>
    let msg := if w.error.message = "" then w.message else w.error.message
    String.ofList (Strings.takeBytes 300 (Strings.trimSpace msg.toList))

def temperaturePhrases : List String :=
  ["'temperature' does not support",
   "temperature is not supported",
   "does not support temperature",
   "unsupported parameter: 'temperature'",
   "unsupported value: 'temperature'",
   "temperature must be"]

def rejectsTemperature (status : Int) (body : Bytes) : Bool :=
  if status ≠ 400 ∧ status ≠ 422 then false
  else
    let lower := Strings.toLower (decodeUtf8 body)
    Strings.contains lower "temperature".toList &&
      temperaturePhrases.any (fun p => Strings.contains lower p.toList)

def accountCooldown : Int := 60 * second

def maxCooldown : Int := 5 * 60 * second

/-- A date is counted in nanoseconds from the epoch, as the clock is. -/
def retryAfter (parseTime : String → Option Int) (now : Int) (h : String) : Int :=
  if h = "" then 0
  else
    match Strings.atoi (Strings.trimSpace h.toList) with
    | some n => if n ≤ 0 then 0 else min (wrap64 (n * second)) maxCooldown
    | none =>
      match parseTime h with
      | some t => if 0 < t - now then min (t - now) maxCooldown else 0
      | none => 0

/-- A fault of the two kinds that mean something to another gateway. -/
def shareable (f : Fault) : Bool := f == .account || f == .degraded

end Switchboard.Gateway
