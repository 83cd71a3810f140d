import Switchboard.Gateway.Ops

namespace Switchboard.Gateway
open Text
open Effect (Prog)

/-- The counts of a usage that are told, with their names. -/
def TokenUsage.attrs (u : TokenUsage) : List (String × Int) :=
  if u.input = 0 ∧ u.output = 0 then []
  else
    [("gen_ai.usage.input_tokens", u.input), ("gen_ai.usage.output_tokens", u.output)] ++
      [("gen_ai.usage.reasoning.output_tokens", u.reasoning),
       ("gen_ai.usage.cache_read.input_tokens", u.cacheRead),
       ("gen_ai.usage.cache_write.input_tokens", u.cacheWrite)].filter (fun a => decide (0 < a.2))

/-- The `Ext` with which an event leaves `wire`. Its keys are distinct, so that setting one
is adding it. -/
def Event.wire (e : Event) : List (String × Json) :=
  (if e.model ≠ "" then [("model", .str e.model)] else []) ++
  (if e.fault ≠ "" then [("fault", .str e.fault)] else []) ++
  (if e.streamFailed = true then [("stream_failed", .bool true)] else []) ++
  (if e.replayed = true then [("idempotent_replay", .bool true)] else []) ++
  (if e.budgetSkipped ≠ [] then [("budget_skipped", .arr (e.budgetSkipped.map .str))] else []) ++
  e.usage.attrs.map (fun a => (a.1, Json.int a.2))

/-- An event as it is marshalled: the fields in their order, some only if they are not empty. -/
def Event.members (e : Event) : List (String × Json) :=
  [("id", .str e.id), ("request_id", .str e.requestID), ("trace_id", .str e.traceID),
    ("span_id", .str e.spanID)] ++
  (if e.parentID ≠ "" then [("parent_id", .str e.parentID)] else []) ++
  [("provider", .str e.provider), ("status", Json.int e.status),
    ("attempts", Json.int e.attempts), ("start_ns", Json.int e.start),
    ("end_ns", Json.int e.finish)] ++
  (if e.policyVersion ≠ 0 then [("policy_version", Json.int e.policyVersion)] else []) ++
  (if e.wire ≠ [] then [("ext", GoJson.map e.wire)] else [])

def Event.json (e : Event) : Json := .obj e.members

/-- What an event weighs on disk and on the wire. -/
def Event.bytes (e : Event) : Bytes := GoJson.marshal e.json

/-- A `map[string]any`, of which nothing is read here. -/
def anyMap : GoJson.Decoder Unit
  | _, .null => some ()
  | _, .obj _ => some ()
  | _, _ => none

open GoJson in
def eventFields : List (GoJson.Field Event) :=
  [field "id" Event.id (fun e v => { e with id := v }) string,
   field "request_id" Event.requestID (fun e v => { e with requestID := v }) string,
   field "trace_id" Event.traceID (fun e v => { e with traceID := v }) string,
   field "span_id" Event.spanID (fun e v => { e with spanID := v }) string,
   field "parent_id" Event.parentID (fun e v => { e with parentID := v }) string,
   field "provider" Event.provider (fun e v => { e with provider := v }) string,
   field "status" Event.status (fun e v => { e with status := v }) int64,
   field "attempts" Event.attempts (fun e v => { e with attempts := v }) int64,
   field "start_ns" Event.start (fun e v => { e with start := v }) int64,
   field "end_ns" Event.finish (fun e v => { e with finish := v }) int64,
   field "policy_version" Event.policyVersion (fun e v => { e with policyVersion := v }) int64,
   field "ext" (fun _ => ()) (fun e _ => e) anyMap]

/-- `json.Unmarshal` of a spooled file. -/
def unmarshalEvent (b : Bytes) : Option Event :=
  GoJson.unmarshal {} (GoJson.struct false eventFields) b

namespace Telemetry

/-- What is counted of telemetry. -/
inductive SpoolMetric where
  | spoolUsed
  | spoolCount
  | diskErrors
  | exportErrors
deriving DecidableEq, Repr

/-- An answer of the control plane. -/
structure Reply where
  status : Int
  body : Body
deriving DecidableEq, Repr

/-- What telemetry does with its directory, the control plane and the state of the process.
`drop` is `Dropped.Add(1)`, with the event on whose account it is. -/
inductive SpoolOp where
  | readDir
  | readFile (path : String)
  | atomicFile (path : String) (b : Bytes)
  | remove (path : String)
  | post (path : String) (body : Bytes)
  | load (m : SpoolMetric)
  | add (m : SpoolMetric) (n : Int)
  | drop (id : String)
  | perEvent
  | fallBack
  | cancelled
deriving DecidableEq

@[reducible] def SpoolAns : SpoolOp → Type
  | .readDir => Option (List String)
  | .readFile _ => Option Bytes
  | .atomicFile _ _ => Bool
  | .remove _ => Bool
  | .post _ _ => Option Reply
  | .load _ => Int
  | .add _ _ => Unit
  | .drop _ => Unit
  | .perEvent => Bool
  | .fallBack => Unit
  | .cancelled => Bool

/-- A program of telemetry. -/
abbrev S (α : Type) : Type := Prog SpoolOp SpoolAns α

def readDir : S (Option (List String)) := Prog.call SpoolOp.readDir
def readFile (path : String) : S (Option Bytes) := Prog.call (SpoolOp.readFile path)
def atomicFile (path : String) (b : Bytes) : S Bool := Prog.call (SpoolOp.atomicFile path b)
def removeFile (path : String) : S Bool := Prog.call (SpoolOp.remove path)
def post (path : String) (body : Bytes) : S (Option Reply) := Prog.call (SpoolOp.post path body)
def load (m : SpoolMetric) : S Int := Prog.call (SpoolOp.load m)
def add (m : SpoolMetric) (n : Int) : S Unit := Prog.call (SpoolOp.add m n)
def drop (id : String) : S Unit := Prog.call (SpoolOp.drop id)
def perEvent : S Bool := Prog.call SpoolOp.perEvent
def fallBack : S Unit := Prog.call SpoolOp.fallBack
def cancelled : S Bool := Prog.call SpoolOp.cancelled

def persist (spoolBytes : Int) (e : Event) : S Unit := do
  let b := e.bytes
  if spoolBytes < wrap64 ((← load .spoolUsed) + b.length) then drop e.id
  else if 10000 ≤ (← load .spoolCount) then drop e.id
  else if ← atomicFile (e.id ++ ".json") b then
    add .spoolUsed b.length
    add .spoolCount 1
  else
    add .diskErrors 1
    drop e.id

def deliverBatch : Nat := 200
def deliverBatches : Nat := 5
def deliverBytes : Nat := 57344

/-- One file that waits to be sent. -/
structure Spooled where
  path : String
  id : String
  size : Int
  event : Bytes
deriving DecidableEq, Repr

def remove (sp : Spooled) : S Unit := do
  if ← removeFile sp.path then
    add .spoolUsed (-sp.size)
    add .spoolCount (-1)
  else add .diskErrors 1

/-- `io.ReadAll` of a limited body. The error of one that breaks off is seen before the
limit is reached. -/
def readLimited (limit : Nat) (body : Body) : Bytes × Bool :=
  (body.bytes.take limit, body.broken && decide (body.bytes.length < limit))

/-- The `id` of an acknowledgement. -/
def ackID (b : Bytes) : Option String :=
  GoJson.unmarshal "" (GoJson.struct false [GoJson.field "id" id (fun _ v => v) GoJson.string]) b

/-- The `accepted` of an acknowledgement, if it has one. -/
def ackAccepted (b : Bytes) : Option (Option (List String)) :=
  GoJson.unmarshal none (GoJson.struct false
    [GoJson.field "accepted" id (fun _ v => v) (GoJson.pointer [] (GoJson.slice "" GoJson.string))]) b

/-- The answer acknowledges this event. -/
def acknowledges (sp : Spooled) (r : Reply) : Bool :=
  let (ack, err) := readLimited 8193 r.body
  !err && r.status == 200 && ackID ack == some sp.id

def sendPerEvent : List Spooled → S Bool
  | [] => pure true
  | sp :: batch => do
    match ← post "/v1/telemetry" sp.event with
    | none =>
      add .exportErrors 1
      pure false
    | some r =>
      if acknowledges sp r then
        remove sp
        sendPerEvent batch
      else
        add .exportErrors 1
        if 400 ≤ r.status ∧ r.status < 500 ∧ r.status ≠ 429 then
          drop sp.id
          remove sp
          sendPerEvent batch
        else pure false

def batchBody (batch : List Spooled) : Bytes :=
  ascii "\x7b\"events\":[" ++ List.intercalate (ascii ",") (batch.map Spooled.event) ++ ascii "]\x7d"

/-- Removes what the control plane has dealt with, and counts what it did not take. -/
def settleBatch (accepted : List String) : List Spooled → S Unit
  | [] => pure ()
  | sp :: batch => do
    if accepted.contains sp.id then remove sp
    else
      drop sp.id
      remove sp
    settleBatch accepted batch

def send (batch : List Spooled) : S Bool := do
  if ← perEvent then sendPerEvent batch
  else
    match ← post "/v1/telemetry/batch" (batchBody batch) with
    | none =>
      add .exportErrors 1
      pure false
    | some r =>
      if r.status = 404 ∨ r.status = 405 then
        fallBack
        sendPerEvent batch
      else if r.status ≠ 200 then
        add .exportErrors 1
        pure false
      else
        match ackAccepted (readLimited 1048576 r.body).1 with
        | some (some accepted) =>
          settleBatch accepted batch
          pure true
        | _ =>
          fallBack
          sendPerEvent batch

/-- The file as it goes into a batch, if it can be sent. -/
def spooledFile (path : String) (b : Option Bytes) : Option Spooled :=
  match b with
  | none => none
  | some b =>
    if 8192 < b.length then none
    else (unmarshalEvent b).map (fun event => ⟨path, event.id, b.length, b⟩)

def deliverFiles (batch : List Spooled) (batchBytes sentBatches : Nat) : List String → S Unit
  | [] =>
    if batch ≠ [] ∧ sentBatches < deliverBatches then do
      let _ ← send batch
      pure ()
    else pure ()
  | f :: files => do
    if (← cancelled) || decide (deliverBatches ≤ sentBatches) then pure ()
    else if !(".json".toList.isSuffixOf f.toList) then
      deliverFiles batch batchBytes sentBatches files
    else
      match spooledFile f (← readFile f) with
      | none =>
        add .diskErrors 1
        deliverFiles batch batchBytes sentBatches files
      | some sp =>
        let batch := batch ++ [sp]
        let batchBytes := batchBytes + sp.event.length
        if batch.length < deliverBatch ∧ batchBytes < deliverBytes then
          deliverFiles batch batchBytes sentBatches files
        else if ← send batch then deliverFiles [] 0 (sentBatches + 1) files
        else pure ()

def deliver : S Unit := do
  match ← readDir with
  | none => add .diskErrors 1
  | some files => deliverFiles [] 0 0 files

end Telemetry

end Switchboard.Gateway
