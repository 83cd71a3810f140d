import Switchboard.Proofs.NoReplay
import Switchboard.Text.Members

namespace Switchboard.Proofs.Translation
open Text Gateway
open Effect (Prog)
open GoJson (under? Fits)

/-- What a caller asks for: a system prompt or none, the turns of the conversation, and how
the answer is to be generated. -/
structure Ask where
  system : Option String
  turns : List Message
  limit : Int
  temperature : Option UInt64
  stream : Bool
deriving DecidableEq

/-- A system message comes first or not at all. -/
def splitSystem : List Message → Option String × List Message
  | [] => (none, [])
  | m :: ms => if m.role = "system" then (some m.content, ms) else (none, m :: ms)

def Ask.of (c : Chat) : Ask :=
  ⟨(splitSystem c.messages).1, (splitSystem c.messages).2, c.maxTokens, c.temperature, c.stream⟩

def textOf : Json → Option String
  | .str s => some s
  | _ => none

def flagOf : Json → Option Bool
  | .bool b => some b
  | _ => none

def countOf : Json → Option Int
  | .num lit => Json.intOf lit
  | _ => none

def itemsOf : Json → Option (List Json)
  | .arr xs => some xs
  | _ => none

def textBlockOf (j : Json) : Option String := (under? "text" j).bind textOf

/-- The text of a list of one text block. -/
def onlyText : Json → Option String
  | .arr [b] => textBlockOf b
  | _ => none

def temperatureOf (lib : Lib) (j : Json) : Option (Option UInt64) :=
  match under? "temperature" j with
  | none => some none
  | some (.num lit) => (lib.parseFloat lit).map some
  | some _ => none

def messageOf (j : Json) : Option Message := do
  let role ← (under? "role" j).bind textOf
  let content ← (under? "content" j).bind textOf
  return ⟨role, content⟩

def turnsOf (turn : Json → Option Message) (j : Json) (name : String) : Option (List Message) := do
  let xs ← (under? name j).bind itemsOf
  xs.mapM turn

/-- A chat completion request of OpenAI's. -/
def readOpenAI (lib : Lib) (j : Json) : Option Ask := do
  let ms ← turnsOf messageOf j "messages"
  let limit ← (under? "max_completion_tokens" j).bind countOf
  let temperature ← temperatureOf lib j
  let stream ← (under? "stream" j).bind flagOf
  return ⟨(splitSystem ms).1, (splitSystem ms).2, limit, temperature, stream⟩

/-- A system prompt of Anthropic's is a text or a list of one text block. -/
def anthropicSystemOf (j : Json) : Option (Option String) :=
  match under? "system" j with
  | none => some none
  | some (.str s) => some (some s)
  | some v => (onlyText v).map some

/-- A request of Anthropic's messages API. -/
def readAnthropic (lib : Lib) (j : Json) : Option Ask := do
  let system ← anthropicSystemOf j
  let ms ← turnsOf messageOf j "messages"
  let limit ← (under? "max_tokens" j).bind countOf
  let temperature ← temperatureOf lib j
  let stream ← (under? "stream" j).bind flagOf
  return ⟨system, ms, limit, temperature, stream⟩

def geminiRole (s : String) : Option String :=
  if s = "model" then some "assistant" else if s = "user" then some "user" else none

def geminiTurn (j : Json) : Option Message := do
  let role ← ((under? "role" j).bind textOf).bind geminiRole
  let content ← (under? "parts" j).bind onlyText
  return ⟨role, content⟩

/-- How the operation of a request is called at the end of its address. -/
def operationOf (url whole streamed : String) : Option Bool :=
  if streamed.toList.isSuffixOf url.toList then some true
  else if whole.toList.isSuffixOf url.toList then some false
  else none

/-- A request to generate content of Gemini's. -/
def readGemini (lib : Lib) (url : String) (j : Json) : Option Ask := do
  let system ← match under? "systemInstruction" j with
    | none => some none
    | some v => ((under? "parts" v).bind onlyText).map some
  let ms ← turnsOf geminiTurn j "contents"
  let config ← under? "generationConfig" j
  let limit ← (under? "maxOutputTokens" config).bind countOf
  let temperature ← temperatureOf lib config
  let stream ← operationOf url ":generateContent" ":streamGenerateContent?alt=sse"
  return ⟨system, ms, limit, temperature, stream⟩

def bedrockTurn (j : Json) : Option Message := do
  let role ← (under? "role" j).bind textOf
  let content ← (under? "content" j).bind onlyText
  return ⟨role, content⟩

/-- A Converse request of Bedrock's. -/
def readBedrock (lib : Lib) (url : String) (j : Json) : Option Ask := do
  let system ← match under? "system" j with
    | none => some none
    | some v => (onlyText v).map some
  let ms ← turnsOf bedrockTurn j "messages"
  let config ← under? "inferenceConfig" j
  let limit ← (under? "maxTokens" config).bind countOf
  let temperature ← temperatureOf lib config
  let stream ← operationOf url "/converse" "/converse-stream"
  return ⟨system, ms, limit, temperature, stream⟩

/-- A request as the provider reads it. -/
def readRequest (lib : Lib) (provider : String) (url : String) (body : Bytes) : Option Ask := do
  let j ← GoJson.scan body
  if provider = "openai" then readOpenAI lib j
  else if provider = "anthropic" then readAnthropic lib j
  else if provider = "gemini" then readGemini lib url j
  else if provider = "bedrock" then readBedrock lib url j
  else none

/-- The numbers a temperature may be are written and read back. -/
structure Floats (lib : Lib) : Prop where
  numeral : ∀ t, inUnit t = true → Json.Numeral (lib.formatFloat t)
  read : ∀ t, inUnit t = true → lib.parseFloat (lib.formatFloat t) = some t

/-- What is known of a chat that was parsed. -/
structure Sound (c : Chat) : Prop where
  messages : validMessages true c.messages = true
  temperature : ∀ t, c.temperature = some t → inUnit t = true

theorem parseChat_sound {lib : Lib} {b : Bytes} {c : Chat} (h : parseChat lib b = .ok c) :
    Sound c := by
  unfold parseChat at h
  split at h
  · cases h
  · rename_i c' hread
    split at h
    · cases h
    · split at h
      · cases h
      · extract_lets d at h
        clear_value d
        split at h
        · cases h
        · rename_i hlimits
          split at h
          · cases h
          · rename_i hvalid
            split at h
            · cases h
            · obtain rfl := Except.ok.inj h
              refine ⟨by simpa using hvalid, fun t ht => ?_⟩
              by_contra hunit
              refine hlimits (.inr (.inr ?_))
              rw [ht]
              simpa using hunit

theorem validMessages_tail {ms : List Message} (h : validMessages false ms = true) :
    ∀ m ∈ ms, m.role = "user" ∨ m.role = "assistant" := by
  induction ms with
  | nil => exact fun _ hm => nomatch hm
  | cons m ms ih =>
    unfold validMessages at h
    split at h
    · cases h
    · rename_i hok
      refine List.forall_mem_cons.mpr ⟨?_, ih h⟩
      simp at hok
      tauto

theorem validMessages_head {m : Message} {ms : List Message}
    (h : validMessages true (m :: ms) = true) :
    m.content ≠ "" ∧ (m.role = "user" ∨ m.role = "assistant" ∨ m.role = "system") ∧
      validMessages false ms = true := by
  unfold validMessages at h
  split at h
  · cases h
  · rename_i hok
    simp at hok
    tauto

theorem foldl_no_system {ms : List Message} (h : ∀ m ∈ ms, m.role ≠ "system") (s : String) :
    ms.foldl (fun s m => if m.role = "system" then m.content else s) s = s := by
  induction ms with
  | nil => rfl
  | cons m ms ih =>
    obtain ⟨hm, hms⟩ := List.forall_mem_cons.mp h
    rw [List.foldl_cons, if_neg hm]
    exact ih hms

theorem filter_no_system {ms : List Message} (h : ∀ m ∈ ms, m.role ≠ "system") :
    ms.filter (fun m => m.role != "system") = ms :=
  List.filter_eq_self.mpr (fun m hm => bne_iff_ne.mpr (h m hm))

/-- The loop that takes the system prompt out takes the first message or nothing. -/
structure Split (c : Chat) : Prop where
  prompt : systemPrompt c = (splitSystem c.messages).1.getD ""
  spoken : (splitSystem c.messages).1 ≠ some ""
  turns : conversation c = (splitSystem c.messages).2
  roles : ∀ m ∈ (splitSystem c.messages).2, m.role = "user" ∨ m.role = "assistant"

theorem Sound.split {c : Chat} (h : Sound c) : Split c := by
  have hvalid := h.messages
  cases hms : c.messages with
  | nil =>
    constructor
    · simp [systemPrompt, hms, splitSystem]
    · simp [hms, splitSystem]
    · simp [conversation, hms, splitSystem]
    · simp [hms, splitSystem]
  | cons m ms =>
    rw [hms] at hvalid
    obtain ⟨hcontent, hrole, htail⟩ := validMessages_head hvalid
    have hroles := validMessages_tail htail
    have hnone : ∀ m ∈ ms, m.role ≠ "system" := by
      intro x hx hsystem
      rcases hroles x hx with hx | hx
      · rw [hx] at hsystem
        exact absurd hsystem (by decide)
      · rw [hx] at hsystem
        exact absurd hsystem (by decide)
    by_cases hsystem : m.role = "system"
    · have hsplit : splitSystem c.messages = (some m.content, ms) := by
        rw [hms, splitSystem, if_pos hsystem]
      constructor
      · rw [hsplit, systemPrompt, hms, List.foldl_cons, if_pos hsystem, foldl_no_system hnone]
        rfl
      · rw [hsplit]
        exact fun heq => hcontent (Option.some.inj heq)
      · rw [hsplit, conversation, hms, List.filter_cons, if_neg (by simp [hsystem]), filter_no_system hnone]
      · rw [hsplit]
        exact hroles
    · have hsplit : splitSystem c.messages = (none, m :: ms) := by
        rw [hms, splitSystem, if_neg hsystem]
      have hall : ∀ x ∈ m :: ms, x.role ≠ "system" := List.forall_mem_cons.mpr ⟨hsystem, hnone⟩
      constructor
      · rw [hsplit, systemPrompt, hms, foldl_no_system hall]
        rfl
      · rw [hsplit]
        exact fun heq => nomatch heq
      · rw [hsplit, conversation, hms, filter_no_system hall]
      · rw [hsplit]
        refine List.forall_mem_cons.mpr ⟨?_, hroles⟩
        rcases hrole with hrole | hrole | hrole
        · exact .inl hrole
        · exact .inr hrole
        · exact absurd hrole hsystem

theorem mapM_map {json : Message → Json} {turn : Json → Option Message} {ms : List Message}
    (h : ∀ m ∈ ms, turn (json m) = some m) : (ms.map json).mapM turn = some ms := by
  induction ms with
  | nil => rfl
  | cons m ms ih =>
    obtain ⟨hm, hms⟩ := List.forall_mem_cons.mp h
    rw [List.map_cons, List.mapM_cons, hm, ih hms]
    rfl

section
variable {lib : Lib} (hl : Floats lib) {c : Chat} (hc : Sound c)

include hl hc in
theorem temperature_read {j : Json}
    (h : under? "temperature" j = (temperatureField lib c).lookup "temperature") :
    temperatureOf lib j = some c.temperature := by
  unfold temperatureOf
  rw [h]
  unfold temperatureField
  cases ht : c.temperature with
  | none => rfl
  | some t =>
    simp only [List.lookup_cons, beq_self_eq_true]
    rw [hl.read t (hc.temperature t ht)]
    rfl

include hl hc in
theorem readOpenAI_body (r : Route) : readOpenAI lib (openaiBody lib c r) = some (Ask.of c) := by
  have hn : (([("model", .str r.model), ("messages", .arr (c.messages.map messageJson)),
      ("stream", .bool c.stream), ("max_completion_tokens", Json.int c.maxTokens)] ++
      temperatureField lib c).map Prod.fst).Nodup := by
    unfold temperatureField
    cases c.temperature <;> simp
  have hmessages : (c.messages.map messageJson).mapM messageOf = some c.messages :=
    mapM_map (fun _ _ => rfl)
  have ht : temperatureOf lib (openaiBody lib c r) = some c.temperature := by
    refine temperature_read hl hc ?_
    rw [openaiBody, GoJson.under?_map hn]
    rfl
  unfold readOpenAI
  rw [ht]
  unfold turnsOf openaiBody
  simp only [GoJson.under?_map hn]
  simp [List.lookup_cons, itemsOf, countOf, flagOf, hmessages, Json.intOf_intLit, Json.int, Ask.of]

/-- A system prompt is there exactly when the chat has one. -/
theorem prompt_cases (h : Split c) : (systemPrompt c = "" ∧ (splitSystem c.messages).1 = none) ∨
    (systemPrompt c ≠ "" ∧ (splitSystem c.messages).1 = some (systemPrompt c)) := by
  have hprompt := h.prompt
  have hspoken := h.spoken
  cases hs : (splitSystem c.messages).1 with
  | none =>
    rw [hs] at hprompt
    exact .inl ⟨hprompt, rfl⟩
  | some s =>
    rw [hs] at hprompt hspoken
    refine .inr ⟨fun hempty => hspoken ?_, congrArg some hprompt.symm⟩
    exact congrArg some (hprompt.symm.trans hempty)

theorem textBlockOf_textBlock (s : String) : textBlockOf (textBlock s) = some s := rfl

theorem textBlockOf_cached (s : String) :
    textBlockOf (GoJson.map [("type", .str "text"), ("text", .str s),
      ("cache_control", GoJson.map [("type", .str "ephemeral")])]) = some s := by
  rw [textBlockOf, GoJson.under?_map (by simp)]
  rfl

include hc in
theorem ask_of_split : Ask.of c =
    ⟨(splitSystem c.messages).1, conversation c, c.maxTokens, c.temperature, c.stream⟩ := by
  rw [Ask.of, hc.split.turns]

include hl hc in
theorem readAnthropic_body (r : Route) :
    readAnthropic lib (anthropicBody lib c r) = some (Ask.of c) := by
  have hn : (([("model", .str r.model), ("messages", .arr ((conversation c).map messageJson)),
      ("max_tokens", Json.int c.maxTokens), ("stream", .bool c.stream)] ++
      anthropicSystem c ++ temperatureField lib c).map Prod.fst).Nodup := by
    unfold temperatureField anthropicSystem
    dsimp only
    split <;> [skip; split] <;> cases c.temperature <;> simp
  have hmessages : ((conversation c).map messageJson).mapM messageOf = some (conversation c) :=
    mapM_map (fun _ _ => rfl)
  have ht : temperatureOf lib (anthropicBody lib c r) = some c.temperature := by
    refine temperature_read hl hc ?_
    rw [anthropicBody, GoJson.under?_map hn]
    unfold anthropicSystem
    dsimp only
    split <;> [skip; split] <;> rfl
  have hsystem : anthropicSystemOf (anthropicBody lib c r) = some (splitSystem c.messages).1 := by
    unfold anthropicSystemOf anthropicBody
    rw [GoJson.under?_map hn]
    unfold anthropicSystem
    rcases prompt_cases hc.split with ⟨hempty, hnone⟩ | ⟨hne, hsome⟩
    · rw [hempty, hnone, if_pos rfl]
      unfold temperatureField
      cases c.temperature <;> rfl
    · rw [hsome, if_neg hne]
      cases c.cacheSystem with
      | false => rfl
      | true => exact congrArg (Option.map some) (textBlockOf_cached _)
  unfold readAnthropic
  rw [ht, hsystem, ask_of_split hc]
  unfold turnsOf anthropicBody
  simp only [GoJson.under?_map hn]
  simp [List.lookup_cons, itemsOf, countOf, flagOf, hmessages, Json.intOf_intLit, Json.int]

theorem geminiTurn_content {m : Message} (h : m.role = "user" ∨ m.role = "assistant") :
    geminiTurn (geminiContent m) = some m := by
  have hrole : geminiRole (if m.role = "assistant" then "model" else m.role) = some m.role := by
    rcases h with h | h
    · rw [h]
      rfl
    · rw [h]
      rfl
  unfold geminiTurn geminiContent
  rw [GoJson.under?_map (by simp), GoJson.under?_map (by simp)]
  simp [List.lookup_cons, textOf, hrole, onlyText, textBlockOf_textBlock]

theorem bedrockTurn_content (m : Message) :
    bedrockTurn (GoJson.map [("role", .str m.role), ("content", .arr [textBlock m.content])]) =
      some m := by
  unfold bedrockTurn
  rw [GoJson.under?_map (by simp), GoJson.under?_map (by simp)]
  simp [List.lookup_cons, textOf, onlyText, textBlockOf_textBlock]

/-- Two operations whose names end in different letters are told apart. -/
theorem operationOf_end {whole streamed : String} {x y : Char}
    (hw : whole.toList.getLast? = some x) (hs : streamed.toList.getLast? = some y) (hxy : x ≠ y)
    (front : String) (stream : Bool) :
    operationOf (front ++ (if stream then streamed else whole)) whole streamed = some stream := by
  unfold operationOf
  cases stream with
  | true =>
    rw [if_pos]
    simp
  | false =>
    rw [if_neg, if_pos]
    · simp
    · rw [List.isSuffixOf_iff_suffix, if_neg Bool.false_ne_true, String.toList_append]
      intro hsuffix
      obtain ⟨pre, hpre⟩ := hsuffix
      have hlast := congrArg List.getLast? hpre
      rw [List.getLast?_append, List.getLast?_append, hw, hs] at hlast
      exact hxy (Option.some.inj hlast).symm

include hl hc in
theorem readGemini_body (front : String) :
    readGemini lib
        (front ++ (if c.stream then ":streamGenerateContent?alt=sse" else ":generateContent"))
        (geminiBody lib c) = some (Ask.of c) := by
  have hconfig : (([("maxOutputTokens", Json.int c.maxTokens), ("candidateCount", Json.int 1)] ++
      temperatureField lib c).map Prod.fst).Nodup := by
    unfold temperatureField
    cases c.temperature <;> simp
  have ht : temperatureOf lib (GoJson.map ([("maxOutputTokens", Json.int c.maxTokens),
      ("candidateCount", Json.int 1)] ++ temperatureField lib c)) = some c.temperature := by
    refine temperature_read hl hc ?_
    rw [GoJson.under?_map hconfig]
    rfl
  have hlimit : (under? "maxOutputTokens" (GoJson.map ([("maxOutputTokens", Json.int c.maxTokens),
      ("candidateCount", Json.int 1)] ++ temperatureField lib c))).bind countOf = some c.maxTokens := by
    rw [GoJson.under?_map hconfig]
    exact Json.intOf_intLit _
  have hmessages : ((conversation c).map geminiContent).mapM geminiTurn = some (conversation c) := by
    refine mapM_map (fun m hm => geminiTurn_content (hc.split.roles m ?_))
    rwa [← hc.split.turns]
  have hstream := @operationOf_end ":generateContent" ":streamGenerateContent?alt=sse" 't' 'e'
    (by decide) (by decide) (by decide) front c.stream
  unfold readGemini
  rw [hstream, ask_of_split hc]
  unfold turnsOf geminiBody
  generalize GoJson.map ([("maxOutputTokens", Json.int c.maxTokens), ("candidateCount", Json.int 1)] ++
    temperatureField lib c) = config at ht hlimit
  rcases prompt_cases hc.split with ⟨hempty, hnone⟩ | ⟨hne, hsome⟩
  · rw [hnone, if_pos hempty, List.append_nil, GoJson.under?_map (by simp),
      GoJson.under?_map (by simp), GoJson.under?_map (by simp)]
    simp [List.lookup_cons, itemsOf, ht, hlimit, hmessages]
  · have hparts : (under? "parts" (GoJson.map [("parts", .arr [textBlock (systemPrompt c)])])).bind
        onlyText = some (systemPrompt c) := rfl
    rw [hsome, if_neg hne, GoJson.under?_map (by simp), GoJson.under?_map (by simp),
      GoJson.under?_map (by simp)]
    simp [List.lookup_cons, itemsOf, ht, hlimit, hmessages, hparts]

include hl hc in
theorem readBedrock_body (front : String) :
    readBedrock lib (front ++ (if c.stream then "/converse-stream" else "/converse"))
        (bedrockBody lib c) = some (Ask.of c) := by
  have hconfig : ((("maxTokens", Json.int c.maxTokens) :: temperatureField lib c).map
      Prod.fst).Nodup := by
    unfold temperatureField
    cases c.temperature <;> simp
  have ht : temperatureOf lib (GoJson.map (("maxTokens", Json.int c.maxTokens) ::
      temperatureField lib c)) = some c.temperature := by
    refine temperature_read hl hc ?_
    rw [GoJson.under?_map hconfig]
    rfl
  have hlimit : (under? "maxTokens" (GoJson.map (("maxTokens", Json.int c.maxTokens) ::
      temperatureField lib c))).bind countOf = some c.maxTokens := by
    rw [GoJson.under?_map hconfig]
    exact Json.intOf_intLit _
  have hmessages : ((conversation c).map (fun m =>
      GoJson.map [("role", .str m.role), ("content", .arr [textBlock m.content])])).mapM bedrockTurn =
        some (conversation c) :=
    mapM_map (fun m _ => bedrockTurn_content m)
  have hstream := @operationOf_end "/converse" "/converse-stream" 'e' 'm' (by decide) (by decide)
    (by decide) front c.stream
  unfold readBedrock
  rw [hstream, ask_of_split hc]
  unfold turnsOf bedrockBody
  generalize GoJson.map (("maxTokens", Json.int c.maxTokens) :: temperatureField lib c) = config at ht hlimit
  rcases prompt_cases hc.split with ⟨hempty, hnone⟩ | ⟨hne, hsome⟩
  · rw [hnone, if_pos hempty, List.append_nil, GoJson.under?_map (by simp),
      GoJson.under?_map (by simp), GoJson.under?_map (by simp)]
    simp [List.lookup_cons, itemsOf, ht, hlimit, hmessages]
  · rw [hsome, if_neg hne, GoJson.under?_map (by simp), GoJson.under?_map (by simp),
      GoJson.under?_map (by simp)]
    simp [List.lookup_cons, itemsOf, ht, hlimit, hmessages, onlyText, textBlockOf_textBlock]

theorem fits_message (n : Nat) (m : Message) : Fits (n + 1) (messageJson m) := by
  refine Fits.obj ?_
  simp only [List.forall_mem_cons, List.not_mem_nil, false_imp_iff, implies_true, and_true]
  exact ⟨Fits.str n _, Fits.str n _⟩

theorem fits_text (n : Nat) (s : String) : Fits (n + 1) (textBlock s) :=
  Fits.map (fun f hf => by
    obtain rfl := List.mem_singleton.mp hf
    exact Fits.str n s)

theorem fits_texts (n : Nat) (s : String) : Fits (n + 2) (.arr [textBlock s]) :=
  Fits.arr (fun x hx => by
    obtain rfl := List.mem_singleton.mp hx
    exact fits_text n s)

theorem fits_list {n : Nat} {json : Message → Json} (h : ∀ m, Fits n (json m)) (ms : List Message) :
    Fits (n + 1) (.arr (ms.map json)) :=
  Fits.arr (fun x hx => by
    obtain ⟨m, -, rfl⟩ := List.mem_map.mp hx
    exact h m)

include hl hc in
theorem fits_temperature (n : Nat) : ∀ f ∈ temperatureField lib c, Fits n f.2 := by
  unfold temperatureField
  cases ht : c.temperature with
  | none => exact fun _ hf => nomatch hf
  | some t =>
    intro f hf
    obtain rfl := List.mem_singleton.mp hf
    exact Fits.num n (hl.numeral t (hc.temperature t ht))

include hl hc in
theorem fits_openai (r : Route) : Fits 3 (openaiBody lib c r) := by
  refine Fits.map (List.forall_mem_append.mpr ⟨?_, fits_temperature hl hc 2⟩)
  simp only [List.forall_mem_cons, List.not_mem_nil, false_imp_iff, implies_true, and_true]
  exact ⟨Fits.str 2 _, fits_list (fits_message 0) _, Fits.bool 2 _, Fits.int 2 _⟩

theorem fits_anthropicSystem (c : Chat) : ∀ f ∈ anthropicSystem c, Fits 4 f.2 := by
  unfold anthropicSystem
  dsimp only
  split
  · exact fun _ hf => nomatch hf
  · split
    · intro f hf
      obtain rfl := List.mem_singleton.mp hf
      refine Fits.arr (fun x hx => ?_)
      obtain rfl := List.mem_singleton.mp hx
      refine Fits.map ?_
      simp only [List.forall_mem_cons, List.not_mem_nil, false_imp_iff, implies_true, and_true]
      refine ⟨Fits.str 2 _, Fits.str 2 _, Fits.map (fun f hf => ?_)⟩
      obtain rfl := List.mem_singleton.mp hf
      exact Fits.str 1 _
    · intro f hf
      obtain rfl := List.mem_singleton.mp hf
      exact Fits.str 4 _

include hl hc in
theorem fits_anthropic (r : Route) : Fits 5 (anthropicBody lib c r) := by
  refine Fits.map (List.forall_mem_append.mpr
    ⟨List.forall_mem_append.mpr ⟨?_, fits_anthropicSystem c⟩, fits_temperature hl hc 4⟩)
  simp only [List.forall_mem_cons, List.not_mem_nil, false_imp_iff, implies_true, and_true]
  exact ⟨Fits.str 4 _, fits_list (fits_message 2) _, Fits.int 4 _, Fits.bool 4 _⟩

theorem fits_geminiContent (n : Nat) (m : Message) : Fits (n + 3) (geminiContent m) := by
  refine Fits.map ?_
  simp only [List.forall_mem_cons, List.not_mem_nil, false_imp_iff, implies_true, and_true]
  exact ⟨Fits.str _ _, fits_texts n _⟩

include hl hc in
theorem fits_gemini : Fits 5 (geminiBody lib c) := by
  refine Fits.map (List.forall_mem_append.mpr ⟨?_, ?_⟩)
  · simp only [List.forall_mem_cons, List.not_mem_nil, false_imp_iff, implies_true, and_true]
    refine ⟨fits_list (fits_geminiContent 0) _,
      Fits.map (List.forall_mem_append.mpr ⟨?_, fits_temperature hl hc 3⟩)⟩
    simp only [List.forall_mem_cons, List.not_mem_nil, false_imp_iff, implies_true, and_true]
    exact ⟨Fits.int 3 _, Fits.int 3 _⟩
  · split
    · exact fun _ hf => absurd hf List.not_mem_nil
    · intro f hf
      obtain rfl := List.mem_singleton.mp hf
      refine Fits.map (fun f hf => ?_)
      obtain rfl := List.mem_singleton.mp hf
      exact fits_texts 1 _

include hl hc in
theorem fits_bedrock : Fits 5 (bedrockBody lib c) := by
  have hmessage : ∀ m : Message, Fits 3
      (GoJson.map [("role", .str m.role), ("content", .arr [textBlock m.content])]) := by
    intro m
    refine Fits.map ?_
    simp only [List.forall_mem_cons, List.not_mem_nil, false_imp_iff, implies_true, and_true]
    exact ⟨Fits.str _ _, fits_texts 0 _⟩
  refine Fits.map (List.forall_mem_append.mpr ⟨?_, ?_⟩)
  · simp only [List.forall_mem_cons, List.not_mem_nil, false_imp_iff, implies_true, and_true]
    exact ⟨fits_list hmessage _,
      Fits.map (List.forall_mem_cons.mpr ⟨Fits.int 3 _, fits_temperature hl hc 3⟩)⟩
  · split
    · exact fun _ hf => absurd hf List.not_mem_nil
    · intro f hf
      obtain rfl := List.mem_singleton.mp hf
      exact fits_texts 2 _

include hl hc in
theorem readRequest_adapter {r : Route} {path : String} {body : Json}
    (h : adapterRequest lib c r = some (path, body)) (front : String) :
    readRequest lib r.provider (front ++ path) (GoJson.marshal body) = some (Ask.of c) := by
  unfold adapterRequest at h
  unfold readRequest
  by_cases hopenai : r.provider = "openai"
  · rw [if_pos hopenai] at h
    obtain ⟨rfl, rfl⟩ := Prod.mk.inj (Option.some.inj h)
    rw [(fits_openai hl hc r).scan (by decide), Option.bind_eq_bind, Option.bind_some, if_pos hopenai]
    exact readOpenAI_body hl hc r
  rw [if_neg hopenai] at h
  by_cases hanthropic : r.provider = "anthropic"
  · rw [if_pos hanthropic] at h
    obtain ⟨rfl, rfl⟩ := Prod.mk.inj (Option.some.inj h)
    rw [(fits_anthropic hl hc r).scan (by decide), Option.bind_eq_bind, Option.bind_some,
      if_neg hopenai, if_pos hanthropic]
    exact readAnthropic_body hl hc r
  rw [if_neg hanthropic] at h
  by_cases hgemini : r.provider = "gemini"
  · rw [if_pos hgemini] at h
    obtain ⟨rfl, rfl⟩ := Prod.mk.inj (Option.some.inj h)
    rw [(fits_gemini hl hc).scan (by decide), Option.bind_eq_bind, Option.bind_some,
      if_neg hopenai, if_neg hanthropic, if_pos hgemini, ← String.append_assoc]
    exact readGemini_body hl hc _
  rw [if_neg hgemini] at h
  by_cases hbedrock : r.provider = "bedrock"
  · rw [if_pos hbedrock] at h
    obtain ⟨rfl, rfl⟩ := Prod.mk.inj (Option.some.inj h)
    rw [(fits_bedrock hl hc).scan (by decide), Option.bind_eq_bind, Option.bind_some,
      if_neg hopenai, if_neg hanthropic, if_neg hgemini, if_pos hbedrock, ← String.append_assoc]
    exact readBedrock_body hl hc _
  · rw [if_neg hbedrock] at h
    cases h

include hl hc in
theorem readRequest_unsigned {r : Route} {pc : ProviderConfig} {u : Upstream}
    (h : unsigned lib c r pc = some u) : readRequest lib r.provider u.url u.body = some (Ask.of c) := by
  unfold unsigned at h
  split at h
  · cases h
  · rename_i path body hrequest
    dsimp only at h
    split at h
    · cases h
    · obtain rfl := Option.some.inj h
      exact readRequest_adapter hl hc hrequest _

end

/-- The chat's own words for what is asked: its system prompt, if any, and the messages of
the two other roles. -/
structure Asks (c : Chat) (a : Ask) : Prop where
  system : a.system = (c.messages.find? (fun m => m.role == "system")).map Message.content
  turns : a.turns = c.messages.filter (fun m => m.role == "user" || m.role == "assistant")
  whole : a.system.toList.map (Message.mk "system") ++ a.turns = c.messages
  limit : a.limit = c.maxTokens
  temperature : a.temperature = c.temperature
  stream : a.stream = c.stream

theorem Sound.asks {c : Chat} (h : Sound c) : Asks c (Ask.of c) := by
  have hroles := h.split.roles
  have hfilter : ∀ ms : List Message, (∀ m ∈ ms, m.role = "user" ∨ m.role = "assistant") →
      ms.filter (fun m => m.role == "user" || m.role == "assistant") = ms ∧
        ms.find? (fun m => m.role == "system") = none := by
    intro ms hms
    refine ⟨List.filter_eq_self.mpr (fun m hm => ?_), List.find?_eq_none.mpr (fun m hm => ?_)⟩
    · rcases hms m hm with hm | hm
      · rw [hm]; rfl
      · rw [hm]; rfl
    · rcases hms m hm with hm | hm
      · rw [hm]; decide
      · rw [hm]; decide
  obtain ⟨hkeep, hnone⟩ := hfilter _ hroles
  cases hms : c.messages with
  | nil => exact ⟨by rw [Ask.of, hms]; rfl, by rw [Ask.of, hms]; rfl, by rw [Ask.of, hms]; rfl, rfl, rfl, rfl⟩
  | cons m ms =>
    rw [hms, splitSystem] at hkeep hnone
    by_cases hsystem : m.role = "system"
    · rw [if_pos hsystem] at hkeep hnone
      have hof : Ask.of c = ⟨some m.content, ms, c.maxTokens, c.temperature, c.stream⟩ := by
        rw [Ask.of, hms, splitSystem, if_pos hsystem]
      rw [hof]
      refine ⟨?_, ?_, ?_, rfl, rfl, rfl⟩
      · rw [hms, List.find?_cons, hsystem]
        rfl
      · rw [hms, List.filter_cons, hsystem]
        exact hkeep.symm
      · rw [hms]
        show Message.mk "system" m.content :: ms = m :: ms
        rw [← hsystem]
    · rw [if_neg hsystem] at hkeep hnone
      have hof : Ask.of c = ⟨none, m :: ms, c.maxTokens, c.temperature, c.stream⟩ := by
        rw [Ask.of, hms, splitSystem, if_neg hsystem]
      rw [hof]
      refine ⟨?_, ?_, hms.symm, rfl, rfl, rfl⟩
      · rw [hms, hnone]
        rfl
      · rw [hms]
        exact hkeep.symm

/-- Whatever the provider, and whether or not the system prompt is marked for caching, the
request that is built says what the chat asks for. -/
theorem upstream_preserves_chat (srv : Server) (hl : Floats srv.lib) (b : Bytes) (c : Chat)
    (hc : parseChat srv.lib b = .ok c) (marked : Bool) (r : Route) (pc : ProviderConfig) :
    (upstream srv { c with cacheSystem := marked } r pc).Returns (fun o => ∀ u ∈ o,
      ∃ a, readRequest srv.lib r.provider u.url u.body = some a ∧ Asks c a) := by
  have hsound := parseChat_sound hc
  have hmarked : Sound { c with cacheSystem := marked } := ⟨hsound.messages, hsound.temperature⟩
  have hread : ∀ u, unsigned srv.lib { c with cacheSystem := marked } r pc = some u →
      ∃ a, readRequest srv.lib r.provider u.url u.body = some a ∧ Asks c a :=
    fun u hu => ⟨Ask.of c, readRequest_unsigned hl hmarked hu, hsound.asks⟩
  unfold upstream
  split
  · exact fun u hu => nomatch hu
  · rename_i u hu
    obtain ⟨a, ha, hasks⟩ := hread u hu
    split
    · split
      · refine Prog.Returns.bind (Prog.returns_any _) (fun hs _ => ?_)
        cases hs with
        | none => exact fun v hv => nomatch hv
        | some hs =>
          intro v hv
          cases hv
          exact ⟨a, ha, hasks⟩
      · exact fun v hv => nomatch hv
    · intro v hv
      cases hv
      exact ⟨a, ha, hasks⟩

/-- A library that writes a number by its bits. -/
def bitsLib : Lib :=
  { NoReplay.plainLib with
    formatFloat := fun t => Json.intLit t.toNat
    parseFloat := fun lit => (Json.intOf lit).map (fun n => UInt64.ofNat n.toNat) }

theorem floats_bits : Floats bitsLib := by
  refine ⟨fun t _ => ?_, fun t _ => ?_⟩
  · show Json.Numeral (Json.intLit t.toNat)
    exact Json.numeral_int _
  · show (Json.intOf (Json.intLit t.toNat)).map (fun n => UInt64.ofNat n.toNat) = some t
    rw [Json.intOf_intLit]
    simp

def askedBody : Bytes :=
  ascii ("\x7b\"model\":\"preferred\",\"temperature\":0,\"messages\":" ++
    "[\x7b\"role\":\"system\",\"content\":\"be brief\"\x7d," ++
    "\x7b\"role\":\"user\",\"content\":\"hi\"\x7d]\x7d")

def askedChat : Chat :=
  { model := "preferred", messages := [⟨"system", "be brief"⟩, ⟨"user", "hi"⟩], maxTokens := 1024,
    temperature := some 0 }

theorem upstream_preserves_chat_asked :
    ∃ u, upstream { NoReplay.plainServer with lib := bitsLib } { askedChat with cacheSystem := true }
        ⟨"anthropic", "claude"⟩ { url := "https://host", keyEnv := "KEY" } = .ret (some u) ∧
      ∃ a, readRequest bitsLib "anthropic" u.url u.body = some a ∧ Asks askedChat a := by
  have hparse : parseChat bitsLib askedBody = .ok askedChat := by decide +kernel
  have hreturns := upstream_preserves_chat { NoReplay.plainServer with lib := bitsLib } floats_bits
    askedBody askedChat hparse true ⟨"anthropic", "claude"⟩ { url := "https://host", keyEnv := "KEY" }
  have hsome : (unsigned bitsLib { askedChat with cacheSystem := true } ⟨"anthropic", "claude"⟩
      { url := "https://host", keyEnv := "KEY" }).map Upstream.url =
      some "https://host/v1/messages" := by decide
  obtain ⟨u, hu, -⟩ := Option.map_eq_some_iff.mp hsome
  have hret : upstream { NoReplay.plainServer with lib := bitsLib } { askedChat with cacheSystem := true }
      ⟨"anthropic", "claude"⟩ { url := "https://host", keyEnv := "KEY" } = .ret (some u) := by
    unfold upstream
    rw [hu]
    rfl
  rw [hret] at hreturns
  exact ⟨u, hret, hreturns u rfl⟩

end Switchboard.Proofs.Translation
