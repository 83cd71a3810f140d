import Switchboard.Controlplane.Policy

namespace Switchboard.Controlplane
open Text Gateway

/-- An event as the API takes it. -/
structure Event where
  id : String
  requestID : String
  traceID : String
  spanID : String
  parentID : Option String := none
  provider : String
  status : Int
  attempts : Int
  startNs : Int
  endNs : Int
  policyVersion : Option Int := none
  ext : Dict := []

/-- `^[0-9a-f]{n}$`. -/
def hexadecimal (n : Nat) (s : String) : Bool :=
  s.toList.length == n && s.toList.all (fun c => "0123456789abcdef".toList.contains c)

def pattern (n : Nat) : Py → Option String
  | .str s => if hexadecimal n s then some s else none
  | _ => none

def literal (values : List String) : Py → Option String
  | .str s => if values.contains s then some s else none
  | _ => none

def atLeast (lo : Int) : Py → Option Int
  | .int n => if lo ≤ n then some n else none
  | _ => none

def between (lo hi : Int) : Py → Option Int
  | .int n => if lo ≤ n ∧ n ≤ hi then some n else none
  | _ => none

def asDict : Py → Option Dict
  | .dict d => some d
  | _ => none

def required (check : Py → Option β) (d : Dict) (k : String) : Option β := (d.lookup k).bind check

/-- A field that may be missing or `None`. -/
def optional (check : Py → Option β) (d : Dict) (k : String) : Option (Option β) :=
  match d.lookup k with
  | none => some none
  | some .none => some none
  | some v => (check v).map some

def defaulted (check : Py → Option β) (default : β) (d : Dict) (k : String) : Option β :=
  match d.lookup k with
  | none => some default
  | some v => check v

def eventKeys : List String :=
  ["id", "request_id", "trace_id", "span_id", "parent_id", "provider", "status", "attempts",
    "start_ns", "end_ns", "policy_version", "ext"]

/-- `Event.model_validate`, strict and with no field beyond those it names. -/
def modelValidate (d : Dict) : Option Event :=
  if !(d.all (fun f => eventKeys.contains f.1)) then none
  else do
    return {
      id := ← required (pattern 32) d "id"
      requestID := ← required (pattern 32) d "request_id"
      traceID := ← required (pattern 32) d "trace_id"
      spanID := ← required (pattern 16) d "span_id"
      parentID := ← optional (pattern 16) d "parent_id"
      provider := ← required (literal ["", "openai", "anthropic", "gemini", "bedrock"]) d "provider"
      status := ← required (between 100 599) d "status"
      attempts := ← required (between 0 64) d "attempts"
      startNs := ← required (atLeast 1) d "start_ns"
      endNs := ← required (atLeast 1) d "end_ns"
      policyVersion := ← optional (atLeast 1) d "policy_version"
      ext := ← defaulted asDict [] d "ext" }

/-- `model_dump(exclude_none=True)`. -/
def Event.modelDump (e : Event) : Dict :=
  [("id", .str e.id), ("request_id", .str e.requestID), ("trace_id", .str e.traceID),
    ("span_id", .str e.spanID)] ++
  (e.parentID.map (fun s => ("parent_id", Py.str s))).toList ++
  [("provider", .str e.provider), ("status", .int e.status), ("attempts", .int e.attempts),
    ("start_ns", .int e.startNs), ("end_ns", .int e.endNs)] ++
  (e.policyVersion.map (fun n => ("policy_version", Py.int n))).toList ++
  [("ext", .dict e.ext)]

/-- The check of an event's timestamps, by the clock of the control plane in nanoseconds. -/
def Event.timely (e : Event) (now : Int) : Bool :=
  !(decide (e.endNs < e.startNs) || decide (now + 60000000000 < e.endNs))

/-- A row of the table `telemetry` of one tenant. -/
structure TelemetryRow where
  id : String
  event : Dict

/-- The table with the documents that were turned down one by one. Nothing reads those. -/
structure TelemetryTable where
  rows : List TelemetryRow := []
  refused : List Dict := []

/-- `INSERT ... ON CONFLICT DO NOTHING`. -/
def TelemetryTable.insert (t : TelemetryTable) (e : Event) : TelemetryTable :=
  if t.rows.any (fun r => r.id == e.id) then t
  else { t with rows := t.rows ++ [⟨e.id, e.modelDump⟩] }

def TelemetryTable.refuse (t : TelemetryTable) (raw : Dict) : TelemetryTable :=
  { t with refused := t.refused ++ [raw] }

/-- An event that is valid and timely. -/
def acceptable (now : Int) (raw : Dict) : Option Event :=
  (modelValidate raw).filter (fun e => e.timely now)

inductive Role where
  | admin
  | publisher
  | viewer
  | agent
deriving DecidableEq, Repr

structure Response where
  status : Int
  body : Bytes
deriving DecidableEq, Repr

/-- `JSONResponse`. -/
def jsonResponse (status : Int) (j : Json) : Response :=
  ⟨status, utf8 (Json.print (escape false) j)⟩

def detail (status : Int) (msg : String) : Response :=
  jsonResponse status (.obj [("detail", .str msg)])

def telemetry (role : Role) (now : Int) (body : Event) (t : TelemetryTable) :
    Response × TelemetryTable :=
  if role ≠ .agent then (detail 403 "forbidden", t)
  else if !body.timely now then (detail 422 "invalid event timestamps", t)
  else (jsonResponse 200 (.obj [("id", .str body.id)]), t.insert body)

/-- The elements of a batch one after another, with what was accepted so far. -/
def takeEvents (now : Int) (accepted : List String) (t : TelemetryTable) :
    List Dict → List String × TelemetryTable
  | [] => (accepted, t)
  | raw :: events =>
    match acceptable now raw with
    | none => takeEvents now accepted (t.refuse raw) events
    | some e => takeEvents now (accepted ++ [e.id]) (t.insert e) events

/-- `EventBatch`: between one and two hundred dictionaries and nothing else. -/
def eventBatch : Py → Option (List Dict)
  | .dict d =>
    if !(d.all (fun f => f.1 == "events")) then none
    else
      match d.lookup "events" with
      | some (.list vs) =>
        if 1 ≤ vs.length ∧ vs.length ≤ 200 then vs.mapM asDict else none
      | _ => none
  | _ => none

def acceptedJson (accepted : List String) : Json := .obj [("accepted", .arr (accepted.map .str))]

def telemetryBatch (role : Role) (now : Int) (body : List Dict) (t : TelemetryTable) :
    Response × TelemetryTable :=
  if role ≠ .agent then (detail 403 "forbidden", t)
  else
    let (accepted, t) := takeEvents now [] t body
    (jsonResponse 200 (acceptedJson accepted), t)

/-- The circumstances of a request: whether its body arrives in time, whom its token stands
for, and what the clock says. -/
structure Visit where
  slow : Bool := false
  principal : Option Role
  now : Int

/-- What `guard` and `session` let through. A body that is not JSON is refused before the
token is looked at, one of the wrong shape after it. -/
def guarded (v : Visit) (body : Bytes) (shape : Py → Option β)
    (handler : Role → β → σ → Response × σ) (t : σ) : Response × σ :=
  if v.slow then (detail 408 "request timeout", t)
  else if 65536 < body.length then (detail 413 "body too large", t)
  else
    match jsonLoads body with
    | none => (detail 422 "invalid request schema", t)
    | some raw =>
      match v.principal with
      | none => (detail 401 "unauthorized", t)
      | some role =>
        match shape raw with
        | none => (detail 422 "invalid request schema", t)
        | some b => handler role b t

/-- The two routes that take telemetry. -/
def serveTelemetry (v : Visit) (path : String) (body : Bytes) (t : TelemetryTable) :
    Response × TelemetryTable :=
  if path = "/v1/telemetry/batch" then
    guarded v body eventBatch (fun role b t => telemetryBatch role v.now b t) t
  else if path = "/v1/telemetry" then
    guarded v body (fun raw => (asDict raw).bind modelValidate)
      (fun role e t => telemetry role v.now e t) t
  else (detail 404 "Not Found", t)

end Switchboard.Controlplane
