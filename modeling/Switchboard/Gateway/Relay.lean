import Switchboard.Gateway.Ops

namespace Switchboard.Gateway
open Text

/-- What is fixed while the server runs. The flags say which of its optional parts it
was given. -/
structure Server where
  c : Config
  lib : Lib
  bedrock : Bool := false
  idem : Bool := false
  telemetry : Bool := false
  capture : Bool := false

/-- One request once it has been read and claimed: what its handling needs throughout. -/
structure Inference where
  srv : Server
  key : String
  id : String
  start : Int
  body : Bytes
  chat : Chat

def problemJson (status : Int) (msg : String) : Json :=
  GoJson.map [("error", GoJson.map [("message", .str msg), ("type", .str "switchboard_error"),
    ("code", Json.int status)])]

def problem (status : Int) (msg : String) : M Unit := do
  delHeader "Cache-Control"
  delHeader "X-Accel-Buffering"
  setHeader "Content-Type" "application/json"
  writeHeader status
  let _ ← write (GoJson.marshal (problemJson status msg))

structure StreamState where
  finished : Bool := false
  wrote : Bool := false
  mismatchCounted : Bool := false
  pending : Option Json := none
  out : StreamResult := {}

/-- How the handler of a stream's events tells its reader to stop. -/
inductive StreamStop where
  | complete
  | error (e : StreamError)
deriving DecidableEq, Repr

/-- What a frame that was handled means for the stream. -/
def frameEnd (provider : String) (st : StreamState) (done : Bool) : Option StreamStop :=
  if done && provider != "openai" then
    if !st.finished then some (.error .missingFinish) else some .complete
  else none

/-- The usage of a frame replaces what was stated before, unless it states none. -/
def StreamState.noteFrame (st : StreamState) (n : Normalized) : StreamState :=
  { st with
    mismatchCounted := st.mismatchCounted || n.usageMismatch,
    out := if n.input ≠ 0 ∨ n.output ≠ 0 then { st.out with usage := usageOf n } else st.out }

def StreamState.noteChunk (st : StreamState) (n : Normalized) : StreamState :=
  { st with
    wrote := true,
    out := { st.out with text := st.out.text ++ n.text,
                         finish := if n.finish ≠ "" then n.finish else st.out.finish } }

/-- A frame that was read: hold it back, send it on, or only take note of it. -/
def emitFrame (k : Inference) (route : Route) (st : StreamState) (n : Normalized) (done : Bool) :
    M (StreamState × Option StreamStop) :=
  if n.text ≠ "" ∨ n.finish ≠ "" then
    let ch := chunk k.id route n (unix k.start)
    if st.wrote = false ∧ n.text = "" ∧ n.finish = "length" then
      pure ({ st with pending := some ch }, none)
    else do
      if ← write (sseFrame ch) then
        let st := st.noteChunk n
        pure (st, frameEnd route.provider st done)
      else pure (st, some (.error .write))
  else pure (st, frameEnd route.provider st done)

def onEvent (k : Inference) (route : Route) (st : StreamState) (b : Bytes) :
    M (StreamState × Option StreamStop) :=
  if b = ascii "[DONE]" then
    if route.provider ≠ "openai" ∨ st.finished = false then
      pure (st, some (.error .prematureDone))
    else pure (st, some .complete)
  else
    let r := normalize route.provider b true
    match r.err with
    | some e => pure (st, some (.error (.wire e)))
    | none => do
      tellIf (r.n.usageMismatch && !st.mismatchCounted) (.count .usageMismatch 1)
      if st.finished = true ∧ r.n.text ≠ "" then
        pure (st.noteFrame r.n, some (.error .textAfterFinish))
      else
        emitFrame k route { st.noteFrame r.n with finished := st.finished || r.n.finish != "" }
          r.n r.done

def onEvents (k : Inference) (route : Route) (st : StreamState) :
    List Bytes → M (StreamState × Option StreamStop)
  | [] => pure (st, none)
  | b :: bs => do
    let (st, stop) ← onEvent k route st b
    match stop with
    | some s => pure (st, some s)
    | none => onEvents k route st bs

/-- How a stream ended. An empty one has sent nothing to the client. -/
inductive StreamEnd where
  | complete
  | empty
  | failed (e : StreamError)
deriving DecidableEq, Repr

def interruptedJson (id : String) : Json :=
  GoJson.map [("error", GoJson.map
    [("message", .str "upstream stream interrupted; do not automatically replay"),
     ("type", .str "stream_error"), ("request_id", .str id)])]

def interrupted (k : Inference) (st : StreamState) (e : StreamError) : M (StreamResult × StreamEnd) := do
  let _ ← write (sseFrame (interruptedJson k.id))
  pure (st.out, .failed e)

def sendDone (st : StreamState) : M (StreamResult × StreamEnd) := do
  if ← write (ascii "data: [DONE]\n\n") then pure (st.out, .complete)
  else pure (st.out, .failed .write)

def closeStream (st : StreamState) : M (StreamResult × StreamEnd) :=
  match st.pending with
  | none => sendDone st
  | some ch =>
    if st.wrote = false then pure (st.out, .empty)
    else do
      if ← write (sseFrame ch) then sendDone st else pure (st.out, .failed .write)

def relay (k : Inference) (route : Route) (body : Body) : M (StreamResult × StreamEnd) := do
  setHeader "Content-Type" "text/event-stream"
  setHeader "Cache-Control" "no-cache"
  setHeader "X-Accel-Buffering" "no"
  let (events, err) := readSSE body
  let (st, stop) ← onEvents k route {} events
  match stop with
  | some .complete => closeStream st
  | some (.error e) => interrupted k st e
  | none => interrupted k st (err.getD .unexpectedEOF)

/-- The stream to read, if the response's content type says it is one. -/
def streamBody (lib : Lib) (route : Route) (contentType : String) (body : Body) : Option Body :=
  let ct := Strings.toLower contentType.toList
  if "text/event-stream".toList.isPrefixOf ct then some body
  else if route.provider = "bedrock" ∧ Strings.contains ct "eventstream".toList then
    some (translateBedrockStream lib body responseLimit)
  else none

def stream (k : Inference) (route : Route) (contentType : String) (body : Body) :
    M (StreamResult × StreamEnd) :=
  match streamBody k.srv.lib route contentType body with
  | none => do
    problem 502 "expected provider event stream"
    pure ({}, .failed .contentType)
  | some body => relay k route body

end Switchboard.Gateway
