import Switchboard.Gateway.Idempotency
import Switchboard.Text.Compact

namespace Switchboard.Gateway
open Text

/-- The members of an entry before its response. -/
def entryHead (e : IdemEntry) : List (String × Json) :=
  [("state", .str e.state.string), ("body_hash", .str e.bodyHash),
    ("stored_unix", Json.int e.stored)] ++
    (if e.status = 0 then [] else [("status", Json.int e.status)]) ++
    (if e.stream then [("stream", .bool true)] else [])

/-- The members of an entry after its response. -/
def entryTail (e : IdemEntry) : List (String × Json) :=
  (if e.text = "" then [] else [("text", .str e.text)]) ++
    (if e.finish = "" then [] else [("finish", .str e.finish)])

/-- `json.Marshal` of an entry whose response is a `json.RawMessage`: the bytes of the response
are made compact and stand among those of the other members. -/
def marshalEntry (e : IdemEntry) (response : Bytes) : Option Bytes :=
  let texts := List.map (Json.rawOf GoJson.escape)
  let object := Json.rawObject GoJson.escape
  if response = [] then some (object (texts (entryHead e) ++ texts (entryTail e)))
  else (GoJson.compact response).map (fun raw =>
    object (texts (entryHead e) ++ ("response", raw) :: texts (entryTail e)))

/-- Whether a member is decoded into the response. -/
def isResponse (key : String) : Bool := GoJson.decodesInto idemEntryFields "response" key

/-- The bytes of the last member that is decoded into the response. -/
def rawResponse (b : Bytes) : Bytes := GoJson.rawMessage idemEntryFields "response" b

/-- `json.Unmarshal` into an entry whose response is a `json.RawMessage`. -/
def unmarshalEntry (b : Bytes) : Option (IdemEntry × Bytes) :=
  (decodeEntry b).map (fun e => ({ e with response := none }, rawResponse b))

end Switchboard.Gateway
