import Switchboard.Gateway.Config

namespace Switchboard.Gateway
open Text

structure Message where
  role : String := ""
  content : String := ""
deriving DecidableEq, Repr

/-- A request as it was parsed. `cacheSystem` is the server's own mark, which no request
body can set. -/
structure Chat where
  model : String := ""
  messages : List Message := []
  stream : Bool := false
  maxTokens : Int := 0
  temperature : Option UInt64 := none
  cacheSystem : Bool := false
deriving DecidableEq, Repr

def messageFields : List (GoJson.Field Message) :=
  [GoJson.field "role" Message.role (fun m s => { m with role := s }) GoJson.string,
   GoJson.field "content" Message.content (fun m s => { m with content := s }) GoJson.string]

def float64 (lib : Lib) : GoJson.Decoder UInt64
  | old, .null => some old
  | _, .num lit => lib.parseFloat lit
  | _, _ => none

def chatFields (lib : Lib) : List (GoJson.Field Chat) :=
  [GoJson.field "model" Chat.model (fun c s => { c with model := s }) GoJson.string,
   GoJson.field "messages" Chat.messages (fun c ms => { c with messages := ms })
     (GoJson.slice {} (GoJson.struct true messageFields)),
   GoJson.field "stream" Chat.stream (fun c b => { c with stream := b }) GoJson.bool,
   GoJson.field "max_tokens" Chat.maxTokens (fun c n => { c with maxTokens := n }) GoJson.int64,
   GoJson.field "temperature" Chat.temperature (fun c t => { c with temperature := t })
     (GoJson.pointer 0 (float64 lib))]

def supportedFields : List String := ["model", "messages", "stream", "max_tokens", "temperature"]

inductive ChatError where
  | notObject
  | unsupportedFields (names : List String)
  | unsupportedValue
  | model (name : String)
  | messageCount (n : Nat)
  | limits
  | textOnly
  | lastNotUser
deriving DecidableEq, Repr

/-- The names that are listed are bounded: five, and how many more there were. -/
def listed (names : List String) : List String :=
  if 5 < names.length then
    names.take 5 ++ ["and " ++ Strings.itoa ((names.length : Int) - 5) ++ " more"]
  else names

def ChatError.text (lib : Lib) (b : Bytes) : ChatError → String
  | .notObject => "request body is not a JSON object: " ++ lib.jsonError b
  | .unsupportedFields names => "unsupported request field(s): " ++
      ", ".intercalate (listed names) ++
      ". Supported fields: model, messages, stream, max_tokens, temperature."
  | .unsupportedValue => "a supported field has an unsupported value; message content must be " ++
      "a plain string, not an array of content parts (" ++ lib.jsonError b ++ ")"
  | .model name => "model must be the literal string \"preferred\", not " ++ lib.quote name ++
      "; the signed routing policy chooses the provider and model, so the caller does not name one"
  | .messageCount n => "1-128 messages required, got " ++ Strings.itoa n
  | .limits => "invalid generation limits"
  | .textOnly => "text messages only; system allowed only first"
  | .lastNotUser => "last message must be user"

def parseHint (b : Bytes) : ChatError :=
  match GoJson.scan b with
  | some (.obj fs) =>
    let unknown := (fs.map Prod.fst).dedup.filter (fun k => !supportedFields.contains k)
    if unknown = [] then .unsupportedValue
    else .unsupportedFields (unknown.insertionSort (fun a b => keyLe a.toList b.toList = true))
  | some .null => .unsupportedValue
  | _ => .notObject

/-- `*t < 0 || *t > 1` fails, by the bits of `t`. Negative zero is not less than zero. -/
def inUnit (t : UInt64) : Bool := t.toNat ≤ 0x3FF0000000000000 || t.toNat == 0x8000000000000000

def validMessages (first : Bool) : List Message → Bool
  | [] => true
  | m :: ms =>
    if m.content = "" || (m.role != "user" && m.role != "assistant" && m.role != "system") ||
      (m.role = "system" && !first) then false
    else validMessages false ms

def parseChat (lib : Lib) (b : Bytes) : Except ChatError Chat :=
  match strictJSON {} (chatFields lib) b with
  | none => .error (parseHint b)
  | some c =>
    if c.model ≠ "preferred" then .error (.model c.model)
    else if c.messages.length < 1 ∨ 128 < c.messages.length then
      .error (.messageCount c.messages.length)
    else
      let c := if c.maxTokens = 0 then { c with maxTokens := 1024 } else c
      if c.maxTokens < 1 ∨ 16384 < c.maxTokens ∨ c.temperature.any (fun t => !inUnit t) then
        .error .limits
      else if !validMessages true c.messages then .error .textOnly
      else if (c.messages.getLast?.map Message.role) ≠ some "user" then .error .lastNotUser
      else .ok c

def systemOf (c : Chat) : String :=
  match c.messages.find? (fun m => m.role == "system") with
  | some m => m.content
  | none => ""

/-- What `upstream` takes for the system prompt: the last such message. -/
def systemPrompt (c : Chat) : String :=
  c.messages.foldl (fun s m => if m.role = "system" then m.content else s) ""

def conversation (c : Chat) : List Message := c.messages.filter (fun m => m.role != "system")

def messageJson (m : Message) : Json := .obj [("role", .str m.role), ("content", .str m.content)]

def textBlock (s : String) : Json := GoJson.map [("text", .str s)]

section
variable (lib : Lib)

def temperatureField (c : Chat) : List (String × Json) :=
  match c.temperature with
  | some t => [("temperature", .num (lib.formatFloat t))]
  | none => []

def openaiBody (c : Chat) (r : Route) : Json :=
  GoJson.map ([("model", .str r.model), ("messages", .arr (c.messages.map messageJson)),
    ("stream", .bool c.stream), ("max_completion_tokens", Json.int c.maxTokens)] ++
    temperatureField lib c)

def anthropicSystem (c : Chat) : List (String × Json) :=
  let system := systemPrompt c
  if system = "" then []
  else if c.cacheSystem then
    [("system", .arr [GoJson.map [("type", .str "text"), ("text", .str system),
      ("cache_control", GoJson.map [("type", .str "ephemeral")])]])]
  else [("system", .str system)]

def anthropicBody (c : Chat) (r : Route) : Json :=
  GoJson.map ([("model", .str r.model), ("messages", .arr ((conversation c).map messageJson)),
    ("max_tokens", Json.int c.maxTokens), ("stream", .bool c.stream)] ++
    anthropicSystem c ++ temperatureField lib c)

def geminiContent (m : Message) : Json :=
  GoJson.map [("role", .str (if m.role = "assistant" then "model" else m.role)),
    ("parts", .arr [textBlock m.content])]

def geminiBody (c : Chat) : Json :=
  GoJson.map ([("contents", .arr ((conversation c).map geminiContent)),
    ("generationConfig", GoJson.map ([("maxOutputTokens", Json.int c.maxTokens),
      ("candidateCount", Json.int 1)] ++ temperatureField lib c))] ++
    if systemPrompt c = "" then []
    else [("systemInstruction", GoJson.map [("parts", .arr [textBlock (systemPrompt c)])])])

def bedrockBody (c : Chat) : Json :=
  GoJson.map ([("messages", .arr ((conversation c).map (fun m =>
      GoJson.map [("role", .str m.role), ("content", .arr [textBlock m.content])]))),
    ("inferenceConfig", GoJson.map (("maxTokens", Json.int c.maxTokens) ::
      temperatureField lib c))] ++
    if systemPrompt c = "" then [] else [("system", .arr [textBlock (systemPrompt c)])])

def upperHex (n : Nat) : Char := if n < 10 then Nat.digitChar n else Char.ofNat (n + 55)

/-- `url.PathEscape`. -/
def pathEscape (s : String) : String :=
  String.ofList ((utf8 s.toList).flatMap (fun b =>
    let c := Char.ofNat b.toNat
    if alphanumeric c || "-_.~$&+:=@".toList.contains c then [c]
    else ['%', upperHex (b.toNat / 16), upperHex (b.toNat % 16)]))

def trimURL (s : String) : String := Strings.trimRight '/' s

/-- The path and the body of a request, for the adapters there are. -/
def adapterRequest (c : Chat) (r : Route) : Option (String × Json) :=
  if r.provider = "openai" then some ("/v1/chat/completions", openaiBody lib c r)
  else if r.provider = "anthropic" then some ("/v1/messages", anthropicBody lib c r)
  else if r.provider = "gemini" then
    some ("/v1beta/models/" ++ r.model ++
      (if c.stream then ":streamGenerateContent?alt=sse" else ":generateContent"), geminiBody lib c)
  else if r.provider = "bedrock" then
    some ("/model/" ++ pathEscape r.model ++ (if c.stream then "/converse-stream" else "/converse"),
      bedrockBody lib c)
  else none

def credentialHeaders (r : Route) (p : ProviderConfig) : List (String × String) :=
  if r.provider = "openai" then [("Authorization", "Bearer " ++ lib.getenv p.keyEnv)]
  else if r.provider = "anthropic" then
    [("x-api-key", lib.getenv p.keyEnv), ("anthropic-version", "2023-06-01")]
  else if r.provider = "gemini" then [("x-goog-api-key", lib.getenv p.keyEnv)]
  else []

/-- A request to a provider, with the chat and the route it was made from. -/
structure Upstream where
  route : Route
  sent : Chat
  url : String
  headers : List (String × String)
  body : Bytes
deriving DecidableEq, Repr

/-- The request before it is signed, which is for Bedrock only. -/
def unsigned (c : Chat) (r : Route) (p : ProviderConfig) : Option Upstream :=
  match adapterRequest lib c r with
  | none => none
  | some (path, body) =>
    let url := trimURL p.url ++ path
    match lib.parseURL url with
    | none => none
    | some _ =>
      some { route := r, sent := c, url := url, body := GoJson.marshal body,
             headers := [("Content-Type", "application/json")] ++
               (if c.stream then [("Accept", "text/event-stream")] else []) ++
               credentialHeaders lib r p }

end

end Switchboard.Gateway
