import Switchboard.Gateway.Normalize

namespace Switchboard.Gateway
open Text

inductive StreamError where
  | contentType
  | prematureDone
  | wire (e : WireError)
  | textAfterFinish
  | missingFinish
  | write
  | tooLong
  | oversized
  | read
  | unexpectedEOF
deriving DecidableEq, Repr

/-- The longest line the scanner returns, its line feed not counted. -/
def maxLine : Nat := 1048575

def dropCR (line : Bytes) : Bytes :=
  if line.getLast? = some 13 then line.dropLast else line

/-- `bufio.Scanner` over lines. The current line is kept in reverse. What is left when
the body ends is a line too, also when it ended with an error. -/
def scanFrom (broken : Bool) (cur : Bytes) : Bytes → List Bytes × Option StreamError
  | [] =>
    let err := if broken then some .read else none
    (if cur = [] then [] else [dropCR cur.reverse], err)
  | b :: bs =>
    if b = 10 then
      let rest := scanFrom broken [] bs
      (dropCR cur.reverse :: rest.1, rest.2)
    else if maxLine ≤ cur.length then ([], some .tooLong)
    else scanFrom broken (b :: cur) bs

def scanLines (body : Body) : List Bytes × Option StreamError := scanFrom body.broken [] body.bytes

/-- The payload of an event, once its last line feed is taken away. -/
def dispatched (data : Bytes) : List Bytes := if data = [] then [] else [data.dropLast]

def trimStart (start s : Bytes) : Bytes := if start.isPrefixOf s then s.drop start.length else s

/-- The events of a stream as they are handed on, and the error that ends it. -/
def sseFrom (err : Option StreamError) (data : Bytes) : List Bytes → List Bytes × Option StreamError
  | [] => (if err.isSome then [] else dispatched data, err)
  | line :: lines =>
    if line = [] then
      let rest := sseFrom err [] lines
      (dispatched data ++ rest.1, rest.2)
    else if (ascii "data:").isPrefixOf line then
      let data := data ++ trimStart (ascii " ") (line.drop 5) ++ [10]
      if 1048576 < data.length then ([], some .oversized) else sseFrom err data lines
    else sseFrom err data lines

def readSSE (body : Body) : List Bytes × Option StreamError :=
  let (lines, err) := scanLines body
  sseFrom err [] lines

/-- Why `readSSE` returns: its callback has failed, or the stream has. -/
inductive ReadError (ε : Type) where
  | callback (e : ε)
  | stream (e : StreamError)
deriving DecidableEq, Repr

section
variable {σ ε : Type} (fn : σ → Bytes → σ × Option ε)

def dispatchSSE (s : σ) (data : Bytes) : σ × Option ε := if data = [] then (s, none) else fn s data.dropLast

/-- The loop of `readSSE` over the lines. The callback has a state of its own. -/
def sseLoop (err : Option StreamError) (s : σ) (data : Bytes) : List Bytes → σ × Option (ReadError ε)
  | [] =>
    match err with
    | some e => (s, some (.stream e))
    | none =>
      let (s, e) := dispatchSSE fn s data
      (s, e.map .callback)
  | line :: lines =>
    if line = [] then
      match dispatchSSE fn s data with
      | (s, some e) => (s, some (.callback e))
      | (s, none) => sseLoop err s [] lines
    else if (ascii "data:").isPrefixOf line then
      let data := data ++ trimStart (ascii " ") (line.drop 5) ++ [10]
      if 1048576 < data.length then (s, some (.stream .oversized)) else sseLoop err s data lines
    else sseLoop err s data lines

/-- `readSSE` with its callback, where `readSSE` itself has the events that it is called with. -/
def readSSEInto (s : σ) (body : Body) : σ × Option (ReadError ε) :=
  let (lines, err) := scanLines body
  sseLoop fn err s [] lines

end

def responseLimit : Nat := 8388608

def sseFrame (j : Json) : Bytes := ascii "data: " ++ GoJson.marshal j ++ ascii "\n\n"

/-- What the translator of a Bedrock stream remembers: the stop reason and the usage it
holds back, the frames written so far, and the length of their text. -/
structure Translation where
  stop : String := ""
  usage : Bytes := []
  out : Bytes := []
  written : Nat := 0

/-- The trailing frame, stop reason and usage in one. -/
def Translation.final (t : Translation) : Json :=
  let usage := match GoJson.unmarshal (none : Option Json)
      (GoJson.struct false [GoJson.field "usage" id (fun _ v => v) GoJson.raw]) t.usage with
    | some (some u) => [("usage", u)]
    | _ => []
  GoJson.map (("stopReason", .str t.stop) :: usage)

/-- One message; `none` is an error, after which nothing more is written. -/
def translateMessage (limit : Nat) (t : Translation) (m : StreamMessage) : Option Translation :=
  match if m.payload = [] then some {} else bedrockWire m.payload with
  | none => none
  | some e =>
    if m.kind = "contentBlockStart" then
      if Strings.contains m.payload (ascii "\"toolUse\"") ||
        Strings.contains m.payload (ascii "\"reasoningContent\"") then none
      else some t
    else if m.kind = "contentBlockDelta" then
      if e.deltaText = "" then some t
      else
        let written := t.written + (utf8 e.deltaText.toList).length
        let frame := sseFrame (GoJson.map [("delta", GoJson.map [("text", .str e.deltaText)])])
        if limit < written then none
        else some { t with written := written, out := t.out ++ frame }
    else if m.kind = "messageStop" then some { t with stop := e.stopReason }
    else if m.kind = "metadata" then some { t with usage := m.payload }
    else some t

/-- The translation of the messages, up to the first that is refused. -/
def translateMessages (limit : Nat) (t : Translation) : List StreamMessage → Translation × Bool
  | [] => (t, true)
  | m :: ms =>
    match translateMessage limit t m with
    | none => (t, false)
    | some t => translateMessages limit t ms

/-- The body the rest of the gateway reads in place of a Bedrock stream. -/
def translateBedrockStream (lib : Lib) (body : Body) (limit : Nat) : Body :=
  let (messages, clean) := lib.eventStream limit body
  match translateMessages limit {} messages with
  | (t, false) => ⟨t.out, true⟩
  | (t, true) =>
    if !clean then ⟨t.out, true⟩
    else if t.stop = "" then ⟨t.out, true⟩
    else ⟨t.out ++ sseFrame t.final, false⟩

structure StreamResult where
  text : String := ""
  finish : String := ""
  usage : TokenUsage := {}
deriving DecidableEq, Repr

end Switchboard.Gateway
