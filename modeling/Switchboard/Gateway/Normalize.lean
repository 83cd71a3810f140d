import Switchboard.Gateway.Adapter

namespace Switchboard.Gateway
open Text

structure Normalized where
  text : String := ""
  finish : String := ""
  input : Int := 0
  output : Int := 0
  reasoning : Int := 0
  cacheRead : Int := 0
  cacheWrite : Int := 0
  usageMismatch : Bool := false
deriving DecidableEq, Repr

structure TokenUsage where
  input : Int := 0
  output : Int := 0
  reasoning : Int := 0
  cacheRead : Int := 0
  cacheWrite : Int := 0
deriving DecidableEq, Repr

def usageOf (n : Normalized) : TokenUsage :=
  ⟨n.input, n.output, n.reasoning, n.cacheRead, n.cacheWrite⟩

inductive WireError where
  | invalidJSON
  | streamError
  | multipleChoices
  | invalidChoice
  | toolCall
  | finishReason
  | contentBlock
  | contentDelta
  | streamEvent
  | multipleCandidates
  | invalidCandidate
  | geminiContent
  | incomplete
deriving DecidableEq, Repr

def finish (s : String) : Except WireError String :=
  if ["stop", "end_turn", "stop_sequence", "STOP"].contains s then .ok "stop"
  else if ["length", "max_tokens", "MAX_TOKENS"].contains s then .ok "length"
  else if ["content_filter", "SAFETY", "RECITATION", "BLOCKLIST", "PROHIBITED_CONTENT",
    "SPII"].contains s then .ok "content_filter"
  else .error .finishReason

def noError : Option Json → Bool
  | none => true
  | some .null => true
  | some _ => false

/-- The source compares the raw text with `[]`, so that it refuses an empty list with
blanks in it; here the two are one value. -/
def noToolCalls : Option Json → Bool
  | none => true
  | some .null => true
  | some (.arr []) => true
  | some _ => false

structure OpenAIText where
  content : Option String := none
  toolCalls : Option Json := none
  refusal : Option String := none

structure Choice where
  index : Int := 0
  message : OpenAIText := {}
  delta : OpenAIText := {}
  finish : Option String := none

structure Block where
  type : String := ""
  text : String := ""

structure Delta where
  type : String := ""
  text : String := ""
  stop : String := ""

structure Usage where
  input : Int := 0
  output : Int := 0
  cacheCreation : Int := 0
  cacheRead : Int := 0
  prompt : Int := 0
  completion : Int := 0
  reasoning : Int := 0

structure Part where
  text : String := ""
  thought : Bool := false
  function : Option Json := none
  inlineData : Option Json := none

structure Candidate where
  index : Int := 0
  parts : List Part := []
  finish : String := ""

structure UsageMetadata where
  input : Int := 0
  output : Int := 0
  thoughts : Int := 0
  total : Int := 0

/-- The fields of three providers' responses and stream frames. -/
structure Wire where
  type : String := ""
  error : Option Json := none
  choices : List Choice := []
  content : List Block := []
  stopReason : String := ""
  delta : Delta := {}
  contentBlock : Block := {}
  usage : Usage := {}
  candidates : List Candidate := []
  block : String := ""
  usageMetadata : UsageMetadata := {}

open GoJson in
def openAITextFields : List (GoJson.Field OpenAIText) :=
  [field "content" OpenAIText.content (fun t v => { t with content := v }) (pointer "" string),
   field "tool_calls" OpenAIText.toolCalls (fun t v => { t with toolCalls := v }) raw,
   field "refusal" OpenAIText.refusal (fun t v => { t with refusal := v }) (pointer "" string)]

open GoJson in
def choiceFields : List (GoJson.Field Choice) :=
  [field "index" Choice.index (fun c v => { c with index := v }) int64,
   field "message" Choice.message (fun c v => { c with message := v })
     (struct false openAITextFields),
   field "delta" Choice.delta (fun c v => { c with delta := v }) (struct false openAITextFields),
   field "finish_reason" Choice.finish (fun c v => { c with finish := v }) (pointer "" string)]

open GoJson in
def blockFields : List (GoJson.Field Block) :=
  [field "type" Block.type (fun b v => { b with type := v }) string,
   field "text" Block.text (fun b v => { b with text := v }) string]

open GoJson in
def deltaFields : List (GoJson.Field Delta) :=
  [field "type" Delta.type (fun d v => { d with type := v }) string,
   field "text" Delta.text (fun d v => { d with text := v }) string,
   field "stop_reason" Delta.stop (fun d v => { d with stop := v }) string]

open GoJson in
def usageFields : List (GoJson.Field Usage) :=
  [field "input_tokens" Usage.input (fun u v => { u with input := v }) int64,
   field "output_tokens" Usage.output (fun u v => { u with output := v }) int64,
   field "cache_creation_input_tokens" Usage.cacheCreation
     (fun u v => { u with cacheCreation := v }) int64,
   field "cache_read_input_tokens" Usage.cacheRead (fun u v => { u with cacheRead := v }) int64,
   field "prompt_tokens" Usage.prompt (fun u v => { u with prompt := v }) int64,
   field "completion_tokens" Usage.completion (fun u v => { u with completion := v }) int64,
   field "completion_tokens_details" Usage.reasoning (fun u v => { u with reasoning := v })
     (struct false [field "reasoning_tokens" id (fun _ v => v) int64])]

open GoJson in
def partFields : List (GoJson.Field Part) :=
  [field "text" Part.text (fun p v => { p with text := v }) string,
   field "thought" Part.thought (fun p v => { p with thought := v }) bool,
   field "functionCall" Part.function (fun p v => { p with function := v }) raw,
   field "inlineData" Part.inlineData (fun p v => { p with inlineData := v }) raw]

open GoJson in
def candidateFields : List (GoJson.Field Candidate) :=
  [field "index" Candidate.index (fun c v => { c with index := v }) int64,
   field "content" Candidate.parts (fun c v => { c with parts := v })
     (struct false [field "parts" id (fun _ v => v) (slice {} (struct false partFields))]),
   field "finishReason" Candidate.finish (fun c v => { c with finish := v }) string]

open GoJson in
def usageMetadataFields : List (GoJson.Field UsageMetadata) :=
  [field "promptTokenCount" UsageMetadata.input (fun u v => { u with input := v }) int64,
   field "candidatesTokenCount" UsageMetadata.output (fun u v => { u with output := v }) int64,
   field "thoughtsTokenCount" UsageMetadata.thoughts (fun u v => { u with thoughts := v }) int64,
   field "totalTokenCount" UsageMetadata.total (fun u v => { u with total := v }) int64]

open GoJson in
def wireFields : List (GoJson.Field Wire) :=
  [field "type" Wire.type (fun w v => { w with type := v }) string,
   field "error" Wire.error (fun w v => { w with error := v }) raw,
   field "choices" Wire.choices (fun w v => { w with choices := v })
     (slice {} (struct false choiceFields)),
   field "content" Wire.content (fun w v => { w with content := v })
     (slice {} (struct false blockFields)),
   field "stop_reason" Wire.stopReason (fun w v => { w with stopReason := v }) string,
   field "delta" Wire.delta (fun w v => { w with delta := v }) (struct false deltaFields),
   field "content_block" Wire.contentBlock (fun w v => { w with contentBlock := v })
     (struct false blockFields),
   field "usage" Wire.usage (fun w v => { w with usage := v }) (struct false usageFields),
   field "candidates" Wire.candidates (fun w v => { w with candidates := v })
     (slice {} (struct false candidateFields)),
   field "promptFeedback" Wire.block (fun w v => { w with block := v })
     (struct false [field "blockReason" id (fun _ v => v) string]),
   field "usageMetadata" Wire.usageMetadata (fun w v => { w with usageMetadata := v })
     (struct false usageMetadataFields)]

/-- What `normalize` returns: what was read, even where it fails; whether the response
is complete; and the error. -/
structure Reading where
  n : Normalized
  done : Bool := false
  err : Option WireError := none

def Reading.fail (n : Normalized) (e : WireError) : Reading := ⟨n, false, some e⟩

def openaiChoice (stream : Bool) (n : Normalized) (c : Choice) : Reading :=
  if c.index ≠ 0 then .fail n .invalidChoice
  else
    let t := if stream then c.delta else c.message
    if !noToolCalls t.toolCalls then .fail n .toolCall
    else
      let n := { n with text := t.content.getD n.text ++ t.refusal.getD "" }
      match c.finish with
      | none => ⟨n, false, none⟩
      | some s =>
        match finish s with
        | .error e => .fail n e
        | .ok f => ⟨{ n with finish := f }, true, none⟩

def normalizeOpenAI (w : Wire) (stream : Bool) : Reading :=
  let n : Normalized :=
    { input := w.usage.prompt, output := w.usage.completion, reasoning := w.usage.reasoning }
  match w.choices with
  | [] => ⟨n, false, none⟩
  | [c] => openaiChoice stream n c
  | _ => .fail n .multipleChoices

def anthropicBlocks (n : Normalized) : List Block → Normalized × Option WireError
  | [] => (n, none)
  | b :: bs =>
    if b.type ≠ "text" then (n, some .contentBlock)
    else anthropicBlocks { n with text := n.text ++ b.text } bs

def anthropicFrame (n : Normalized) (w : Wire) : Reading :=
  if w.type = "content_block_start" then
    if w.contentBlock.type ≠ "text" then .fail n .contentBlock
    else ⟨{ n with text := w.contentBlock.text }, false, none⟩
  else if w.type = "content_block_delta" then
    if w.delta.type ≠ "text_delta" then .fail n .contentDelta
    else ⟨{ n with text := w.delta.text }, false, none⟩
  else if w.type = "message_delta" then
    if w.delta.stop = "" then ⟨n, false, none⟩
    else
      match finish w.delta.stop with
      | .error e => .fail n e
      | .ok f => ⟨{ n with finish := f }, false, none⟩
  else if w.type = "message_stop" then ⟨n, true, none⟩
  else if ["message_start", "content_block_stop", "ping"].contains w.type then ⟨n, false, none⟩
  else .fail n .streamEvent

def normalizeAnthropic (w : Wire) (stream : Bool) : Reading :=
  let n : Normalized :=
    { input := wrap64 (wrap64 (w.usage.input + w.usage.cacheCreation) + w.usage.cacheRead),
      output := w.usage.output, cacheRead := w.usage.cacheRead,
      cacheWrite := w.usage.cacheCreation }
  if stream then anthropicFrame n w
  else
    match anthropicBlocks n w.content with
    | (n, some e) => .fail n e
    | (n, none) =>
      match finish w.stopReason with
      | .error e => .fail n e
      | .ok f => ⟨{ n with finish := f }, true, none⟩

def geminiParts (n : Normalized) : List Part → Normalized × Option WireError
  | [] => (n, none)
  | p :: ps =>
    if p.function.isSome || p.inlineData.isSome then (n, some .geminiContent)
    else geminiParts (if p.thought then n else { n with text := n.text ++ p.text }) ps

def geminiCandidate (n : Normalized) (c : Candidate) : Reading :=
  if c.index ≠ 0 then .fail n .invalidCandidate
  else
    match geminiParts n c.parts with
    | (n, some e) => .fail n e
    | (n, none) =>
      if c.finish = "" then ⟨n, false, none⟩
      else
        match finish c.finish with
        | .error e => .fail n e
        | .ok f => ⟨{ n with finish := f }, true, none⟩

def geminiUsage (u : UsageMetadata) : Normalized :=
  let output := wrap64 (u.output + u.thoughts)
  { input := u.input, output := output, reasoning := u.thoughts,
    usageMismatch := decide (0 < u.total ∧ 0 < u.input ∧ wrap64 (u.total - u.input) ≠ output) }

def normalizeGemini (w : Wire) : Reading :=
  let n := geminiUsage w.usageMetadata
  if w.block ≠ "" then ⟨{ n with finish := "content_filter" }, true, none⟩
  else
    match w.candidates with
    | [] => ⟨n, false, none⟩
    | [c] => geminiCandidate n c
    | _ => .fail n .multipleCandidates

structure BedrockBlock where
  text : String := ""
  toolUse : Option Json := none
  reasoning : Option Json := none

structure BedrockWire where
  content : List BedrockBlock := []
  stopReason : String := ""
  input : Int := 0
  output : Int := 0
  deltaText : String := ""
  contentBlockIndex : Option Int := none

open GoJson in
def bedrockBlockFields : List (GoJson.Field BedrockBlock) :=
  [field "text" BedrockBlock.text (fun b v => { b with text := v }) string,
   field "toolUse" BedrockBlock.toolUse (fun b v => { b with toolUse := v }) raw,
   field "reasoningContent" BedrockBlock.reasoning (fun b v => { b with reasoning := v }) raw]

/-- The pair of token counts of a usage object. -/
def bedrockUsageFields : List (GoJson.Field (Int × Int)) :=
  [GoJson.field "inputTokens" Prod.fst (fun u v => (v, u.2)) GoJson.int64,
   GoJson.field "outputTokens" Prod.snd (fun u v => (u.1, v)) GoJson.int64]

open GoJson in
def bedrockWireFields : List (GoJson.Field BedrockWire) :=
  [field "output" BedrockWire.content (fun w v => { w with content := v })
     (struct false [field "message" id (fun _ v => v) (struct false
       [field "content" id (fun _ v => v) (slice {} (struct false bedrockBlockFields))])]),
   field "stopReason" BedrockWire.stopReason (fun w v => { w with stopReason := v }) string,
   field "usage" (fun w : BedrockWire => (w.input, w.output))
     (fun w v => { w with input := v.1, output := v.2 }) (struct false bedrockUsageFields),
   field "delta" BedrockWire.deltaText (fun w v => { w with deltaText := v })
     (struct false [field "text" id (fun _ v => v) string]),
   field "contentBlockIndex" BedrockWire.contentBlockIndex
     (fun w v => { w with contentBlockIndex := v }) (pointer 0 int64)]

def bedrockWire (b : Bytes) : Option BedrockWire :=
  GoJson.unmarshal {} (GoJson.struct false bedrockWireFields) b

def bedrockFinish (s : String) : Except WireError String :=
  if ["end_turn", "stop_sequence"].contains s then .ok "stop"
  else if s = "max_tokens" then .ok "length"
  else if ["guardrail_intervened", "content_filtered"].contains s then .ok "content_filter"
  else .error .finishReason

def normalizeBedrockStream (b : Bytes) : Reading :=
  match bedrockWire b with
  | none => .fail {} .invalidJSON
  | some w =>
    let n : Normalized := { text := w.deltaText, input := w.input, output := w.output }
    if w.stopReason = "" then ⟨n, false, none⟩
    else
      match bedrockFinish w.stopReason with
      | .error e => .fail n e
      | .ok f => ⟨{ n with finish := f }, true, none⟩

def bedrockBlocks (n : Normalized) : List BedrockBlock → Normalized × Option WireError
  | [] => (n, none)
  | b :: bs =>
    if b.toolUse.isSome || b.reasoning.isSome then (n, some .contentBlock)
    else bedrockBlocks { n with text := n.text ++ b.text } bs

/-- A complete response is done, error or not. -/
def normalizeBedrock (b : Bytes) : Reading :=
  match bedrockWire b with
  | none => ⟨{}, true, some .invalidJSON⟩
  | some w =>
    match bedrockBlocks {} w.content with
    | (n, some e) => ⟨n, true, some e⟩
    | (n, none) =>
      match bedrockFinish w.stopReason with
      | .error e => ⟨n, true, some e⟩
      | .ok f => ⟨{ n with finish := f, input := w.input, output := w.output }, true, none⟩

def normalizeWire (provider : String) (w : Wire) (stream : Bool) : Reading :=
  if provider = "openai" then normalizeOpenAI w stream
  else if provider = "anthropic" then normalizeAnthropic w stream
  else if provider = "gemini" then normalizeGemini w
  else ⟨{}, false, none⟩

def normalize (provider : String) (b : Bytes) (stream : Bool) : Reading :=
  if provider = "bedrock" then
    if stream then normalizeBedrockStream b else normalizeBedrock b
  else
    match GoJson.unmarshal {} (GoJson.struct false wireFields) b with
    | none => .fail {} .invalidJSON
    | some w =>
      if !noError w.error then .fail {} .streamError
      else
        let r := normalizeWire provider w stream
        if r.err = none ∧ stream = false ∧ r.done = false then .fail r.n .incomplete else r

/-- The numbers and texts of a completion, in the shape the caller's SDK expects. -/
def completion (id : String) (r : Route) (n : Normalized) (created : Int) : Json :=
  GoJson.map [("id", .str ("chatcmpl-" ++ id)), ("object", .str "chat.completion"),
    ("created", Json.int created), ("model", .str r.model),
    ("choices", .arr [GoJson.map [("index", Json.int 0),
      ("message", GoJson.map [("role", .str "assistant"), ("content", .str n.text)]),
      ("finish_reason", .str n.finish)]]),
    ("usage", GoJson.map [("prompt_tokens", Json.int n.input),
      ("completion_tokens", Json.int n.output),
      ("total_tokens", Json.int (wrap64 (n.input + n.output)))])]

def chunk (id : String) (r : Route) (n : Normalized) (created : Int) : Json :=
  GoJson.map [("id", .str ("chatcmpl-" ++ id)), ("object", .str "chat.completion.chunk"),
    ("created", Json.int created), ("model", .str r.model),
    ("choices", .arr [GoJson.map [("index", Json.int 0),
      ("delta", .obj (if n.text = "" then [] else [("content", .str n.text)])),
      ("finish_reason", if n.finish = "" then .null else .str n.finish)]])]

end Switchboard.Gateway
