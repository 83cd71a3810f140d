import Switchboard.Proofs.Judgement
import Switchboard.Text.Members

namespace Switchboard.Proofs.Content
open Text Gateway
open GoJson (Reads slot_field distinct member member? foldName field struct slice pointer raw string bool elems
  stringOf)

/-- A piece of content in what a provider sends. -/
inductive Item where
  | text (s : String)
  | refusal (s : String)
  | thought (s : String)
  | other (kind : String)
deriving DecidableEq

def Item.plain : Item → Bool
  | .other _ => false
  | _ => true

def Item.spoken : Item → String
  | .text s => s
  | .refusal s => s
  | _ => ""

def spoken : List Item → String
  | [] => ""
  | i :: is => i.spoken ++ spoken is

/-- A member that says nothing. -/
def blank : Json → Bool
  | .null => true
  | .arr [] => true
  | _ => false

/-- The members of an object, other than those named, that say something. -/
def others (known : List String) : Json → List Item
  | .obj fs => (fs.filter (fun f => !known.any (fun n => foldName n == foldName f.1) && !blank f.2)).map
      (fun f => .other f.1)
  | _ => []

def textItem (j : Json) : List Item :=
  match j with
  | .str s => [.text s]
  | _ => []

def refusalItem (j : Json) : List Item :=
  match j with
  | .str s => [.refusal s]
  | _ => []

/-- A message or a delta of OpenAI's: its text, its refusal, and whatever else it has. -/
def messageItems (m : Json) : List Item :=
  textItem (member "content" m) ++ refusalItem (member "refusal" m) ++
    others ["role", "annotations", "content", "refusal"] m

def openaiItems (stream : Bool) (j : Json) : List Item :=
  (elems (member "choices" j)).flatMap
    (fun c => messageItems (member (if stream then "delta" else "message") c))

/-- A block of Anthropic's, of which `type` says what it is. -/
def typedItem (type : String) (b : Json) : Item :=
  if stringOf (member "type" b) = type then .text (stringOf (member "text" b))
  else .other (stringOf (member "type" b))

def anthropicItems (stream : Bool) (j : Json) : List Item :=
  if stream then
    if stringOf (member "type" j) = "content_block_start" then
      [typedItem "text" (member "content_block" j)]
    else if stringOf (member "type" j) = "content_block_delta" then
      [typedItem "text_delta" (member "delta" j)]
    else if stringOf (member "type" j) = "message_start" then
      (elems (member "content" (member "message" j))).map (typedItem "text")
    else []
  else (elems (member "content" j)).map (typedItem "text")

def thoughtful : Json → Bool
  | .bool b => b
  | _ => false

/-- A part of Gemini's: its text, which may be a thought, and whatever else it has. -/
def partText (p : Json) : List Item :=
  if thoughtful (member "thought" p) then [.thought (stringOf (member "text" p))]
  else textItem (member "text" p)

def partItems (p : Json) : List Item :=
  partText p ++ others ["text", "thought", "thoughtSignature"] p

def geminiItems (j : Json) : List Item :=
  (elems (member "candidates" j)).flatMap
    (fun c => (elems (member "parts" (member "content" c))).flatMap partItems)

/-- A block of Bedrock's: its text and whatever else it has. -/
def bedrockItems (b : Json) : List Item := textItem (member "text" b) ++ others ["text"] b

def converseItems (stream : Bool) (j : Json) : List Item :=
  if stream then bedrockItems (member "delta" j) ++ others [] (member "start" j)
  else (elems (member "content" (member "message" (member "output" j)))).flatMap bedrockItems

/-- The content of a complete response or of a frame of a stream, in order. -/
def items (provider : String) (stream : Bool) (j : Json) : List Item :=
  if provider = "openai" then openaiItems stream j
  else if provider = "anthropic" then anthropicItems stream j
  else if provider = "gemini" then geminiItems j
  else if provider = "bedrock" then converseItems stream j
  else []

/-- The content that the reader does not look at. -/
def unseen (provider : String) (stream : Bool) (j : Json) : List Item :=
  if provider = "openai" then
    (elems (member "choices" j)).flatMap (fun c =>
      others ["role", "annotations", "content", "refusal", "tool_calls"]
        (member (if stream then "delta" else "message") c))
  else if provider = "anthropic" then
    if stream ∧ stringOf (member "type" j) = "message_start" then anthropicItems stream j else []
  else if provider = "gemini" then
    if stringOf (member "blockReason" (member "promptFeedback" j)) ≠ "" then geminiItems j
    else (elems (member "candidates" j)).flatMap (fun c =>
      (elems (member "parts" (member "content" c))).flatMap
        (others ["text", "thought", "thoughtSignature", "functionCall", "inlineData"]))
  else if provider = "bedrock" then
    if stream then others ["text"] (member "delta" j) ++ others [] (member "start" j)
    else (elems (member "content" (member "message" (member "output" j)))).flatMap
      (others ["text", "toolUse", "reasoningContent"])
  else []

theorem spoken_append (xs ys : List Item) : spoken (xs ++ ys) = spoken xs ++ spoken ys := by
  induction xs with
  | nil => simp [spoken]
  | cons x xs ih => simp [spoken, ih, String.append_assoc]

theorem others_other {known : List String} {j : Json} {i : Item} (h : i ∈ others known j) :
    i.plain = false ∧ i.spoken = "" := by
  cases j with
  | obj fs =>
    obtain ⟨f, -, rfl⟩ := List.mem_map.mp h
    exact ⟨rfl, rfl⟩
  | _ => cases h

theorem spoken_silent {is : List Item} (h : ∀ i ∈ is, i.spoken = "") : spoken is = "" := by
  induction is with
  | nil => rfl
  | cons i is ih =>
    rw [spoken, h i List.mem_cons_self, ih (fun k hk => h k (List.mem_cons_of_mem _ hk))]
    rfl

theorem silent_of_spoken {is : List Item} (h : spoken is = "") : ∀ i ∈ is, i.spoken = "" := by
  induction is with
  | nil => exact fun _ hi => nomatch hi
  | cons i is ih =>
    obtain ⟨hi, his⟩ := String.append_eq_empty_iff.mp h
    intro k hk
    rcases List.mem_cons.mp hk with rfl | hk
    · exact hi
    · exact ih his k hk

/-- The answer is as the content says. -/
structure Faithful (is : List Item) (t : String) : Prop where
  plain : ∀ i ∈ is, i.plain = true
  text : t = spoken is

/-- Content that is read up to what is not looked at. -/
structure Seen (is hs : List Item) (t : String) : Prop where
  plain : (∀ i ∈ hs, i.plain = true ∧ i.spoken = "") → ∀ i ∈ is, i.plain = true
  text : (∀ i ∈ hs, i.spoken = "") → t = spoken is
  part : ∀ i ∈ hs, i ∈ is
  silent : t = spoken is → (∀ i ∈ is, i.plain = true) → ∀ i ∈ hs, i.spoken = ""

theorem Seen.faithful_iff {is hs : List Item} {t : String} (h : Seen is hs t) :
    Faithful is t ↔ ∀ i ∈ hs, i.plain = true ∧ i.spoken = "" := by
  refine ⟨fun hf i hi => ?_, fun hsilent => ?_⟩
  · exact ⟨hf.plain i (h.part i hi), h.silent hf.text hf.plain i hi⟩
  · exact ⟨h.plain hsilent, h.text (fun i hi => (hsilent i hi).2)⟩

/-- Nothing of it is looked at. -/
theorem Seen.blind (is : List Item) : Seen is is "" :=
  ⟨fun h i hi => (h i hi).1, fun h => (spoken_silent h).symm, fun _ hi => hi,
    fun h _ => silent_of_spoken h.symm⟩

/-- Piece by piece, something is read of each and something is not looked at. -/
theorem Seen.pieces {α : Type} {xs : List α} {whole hidden : α → List Item} {text : String}
    (read : α → List Item)
    (hsplit : ∀ x ∈ xs, whole x = read x ++ hidden x) (hread : ∀ x ∈ xs, ∀ i ∈ read x, i.plain = true)
    (hother : ∀ x ∈ xs, ∀ i ∈ hidden x, i.spoken = "") (ht : text = spoken (xs.flatMap read)) :
    Seen (xs.flatMap whole) (xs.flatMap hidden) text := by
  have hspoken : spoken (xs.flatMap whole) = spoken (xs.flatMap read) := by
    clear ht hread
    induction xs with
    | nil => rfl
    | cons x xs ih =>
      have hrest := ih (fun y hy => hsplit y (List.mem_cons_of_mem _ hy))
        (fun y hy => hother y (List.mem_cons_of_mem _ hy))
      rw [List.flatMap_cons, List.flatMap_cons, spoken_append, spoken_append, hrest,
        hsplit x List.mem_cons_self, spoken_append, spoken_silent (hother x List.mem_cons_self),
        String.append_empty]
  refine ⟨fun h i hi => ?_, fun _ => ht.trans hspoken.symm, fun i hi => ?_, fun _ _ i hi => ?_⟩
  · obtain ⟨x, hx, hi⟩ := List.mem_flatMap.mp hi
    rw [hsplit x hx] at hi
    rcases List.mem_append.mp hi with hi | hi
    · exact hread x hx i hi
    · exact (h i (List.mem_flatMap.mpr ⟨x, hx, hi⟩)).1
  · obtain ⟨x, hx, hi⟩ := List.mem_flatMap.mp hi
    refine List.mem_flatMap.mpr ⟨x, hx, ?_⟩
    rw [hsplit x hx]
    exact List.mem_append_right _ hi
  · obtain ⟨x, hx, hi⟩ := List.mem_flatMap.mp hi
    exact hother x hx i hi

/-- A member that says nothing may as well be known. -/
theorem others_known {known extra : List String} {j : Json}
    (h : ∀ fs, j = .obj fs → ∀ f ∈ fs, ∀ n ∈ extra, foldName f.1 = foldName n → blank f.2 = true) :
    others (known ++ extra) j = others known j := by
  cases j with
  | obj fs =>
    refine congrArg (List.map (fun f : String × Json => Item.other f.1))
      (List.filter_congr (fun f hf => ?_))
    rw [List.any_append]
    cases hextra : extra.any (fun n => foldName n == foldName f.1) with
    | false => rw [Bool.or_false]
    | true =>
      obtain ⟨n, hn, heq⟩ := List.any_eq_true.mp hextra
      have hblank := h fs rfl f hf n hn (beq_iff_eq.mp heq).symm
      simp [hblank]
  | _ => rfl

theorem reads_choices : Reads wireFields "choices" Wire.choices (slice {} (struct false choiceFields)) :=
  .of (by simp [wireFields, field]) (by simp +decide [wireFields, slot_field])

theorem reads_content : Reads wireFields "content" Wire.content (slice {} (struct false blockFields)) :=
  .of (by simp [wireFields, field]) (by simp +decide [wireFields, slot_field])

theorem reads_type : Reads wireFields "type" Wire.type string :=
  .of (by simp [wireFields, field]) (by simp +decide [wireFields, slot_field])

theorem reads_delta : Reads wireFields "delta" Wire.delta (struct false deltaFields) :=
  .of (by simp [wireFields, field]) (by simp +decide [wireFields, slot_field])

theorem reads_contentBlock :
    Reads wireFields "content_block" Wire.contentBlock (struct false blockFields) :=
  .of (by simp [wireFields, field]) (by simp +decide [wireFields, slot_field])

theorem reads_candidates :
    Reads wireFields "candidates" Wire.candidates (slice {} (struct false candidateFields)) :=
  .of (by simp [wireFields, field]) (by simp +decide [wireFields, slot_field])

theorem reads_block : Reads wireFields "promptFeedback" Wire.block
    (struct false [field "blockReason" id (fun _ v => v) string]) :=
  .of (by simp [wireFields, field]) (by simp +decide [wireFields, slot_field])

theorem reads_message : Reads choiceFields "message" Choice.message (struct false openAITextFields) :=
  .of (by simp [choiceFields, field]) (by simp +decide [choiceFields, slot_field])

theorem reads_choiceDelta : Reads choiceFields "delta" Choice.delta (struct false openAITextFields) :=
  .of (by simp [choiceFields, field]) (by simp +decide [choiceFields, slot_field])

theorem reads_text : Reads openAITextFields "content" OpenAIText.content (pointer "" string) :=
  .of (by simp [openAITextFields, field]) (by simp +decide [openAITextFields, slot_field])

theorem reads_refusal : Reads openAITextFields "refusal" OpenAIText.refusal (pointer "" string) :=
  .of (by simp [openAITextFields, field]) (by simp +decide [openAITextFields, slot_field])

theorem reads_toolCalls : Reads openAITextFields "tool_calls" OpenAIText.toolCalls raw :=
  .of (by simp [openAITextFields, field]) (by simp +decide [openAITextFields, slot_field])

theorem reads_blockType : Reads blockFields "type" Block.type string :=
  .of (by simp [blockFields, field]) (by simp +decide [blockFields, slot_field])

theorem reads_blockText : Reads blockFields "text" Block.text string :=
  .of (by simp [blockFields, field]) (by simp +decide [blockFields, slot_field])

theorem reads_deltaType : Reads deltaFields "type" Delta.type string :=
  .of (by simp [deltaFields, field]) (by simp +decide [deltaFields, slot_field])

theorem reads_deltaText : Reads deltaFields "text" Delta.text string :=
  .of (by simp [deltaFields, field]) (by simp +decide [deltaFields, slot_field])

theorem reads_parts : Reads candidateFields "content" Candidate.parts
    (struct false [field "parts" id (fun _ v => v) (slice {} (struct false partFields))]) :=
  .of (by simp [candidateFields, field]) (by simp +decide [candidateFields, slot_field])

theorem reads_partText : Reads partFields "text" Part.text string :=
  .of (by simp [partFields, field]) (by simp +decide [partFields, slot_field])

theorem reads_thought : Reads partFields "thought" Part.thought bool :=
  .of (by simp [partFields, field]) (by simp +decide [partFields, slot_field])

theorem reads_function : Reads partFields "functionCall" Part.function raw :=
  .of (by simp [partFields, field]) (by simp +decide [partFields, slot_field])

theorem reads_inlineData : Reads partFields "inlineData" Part.inlineData raw :=
  .of (by simp [partFields, field]) (by simp +decide [partFields, slot_field])

theorem reads_converse : Reads bedrockWireFields "output" BedrockWire.content
    (struct false [field "message" id (fun _ v => v) (struct false
      [field "content" id (fun _ v => v) (slice {} (struct false bedrockBlockFields))])]) :=
  .of (by simp [bedrockWireFields, field]) (by simp +decide [bedrockWireFields, slot_field])

theorem reads_converseDelta : Reads bedrockWireFields "delta" BedrockWire.deltaText
    (struct false [field "text" id (fun _ v => v) string]) :=
  .of (by simp [bedrockWireFields, field]) (by simp +decide [bedrockWireFields, slot_field])

theorem reads_converseText : Reads bedrockBlockFields "text" BedrockBlock.text string :=
  .of (by simp [bedrockBlockFields, field]) (by simp +decide [bedrockBlockFields, slot_field])

theorem reads_toolUse : Reads bedrockBlockFields "toolUse" BedrockBlock.toolUse raw :=
  .of (by simp [bedrockBlockFields, field]) (by simp +decide [bedrockBlockFields, slot_field])

theorem reads_reasoning : Reads bedrockBlockFields "reasoningContent" BedrockBlock.reasoning raw :=
  .of (by simp [bedrockBlockFields, field]) (by simp +decide [bedrockBlockFields, slot_field])

/-- An object of one field. -/
theorem reads_only {α : Type} (name : String) (d : GoJson.Decoder α) :
    Reads [field name id (fun _ v => v) d] name id d :=
  ⟨by simp [field], by simp [field], by simp [field]⟩

/-- All of it is read. -/
theorem Seen.whole {is : List Item} {t : String} (hplain : ∀ i ∈ is, i.plain = true)
    (ht : t = spoken is) : Seen is [] t :=
  ⟨fun _ => hplain, fun _ => ht, fun _ hi => (nomatch hi), fun _ _ _ hi => (nomatch hi)⟩

theorem spoken_textItem (j : Json) : spoken (textItem j) = stringOf j := by
  cases j with
  | str s => exact String.append_empty
  | _ => rfl

theorem spoken_refusalItem (j : Json) : spoken (refusalItem j) = stringOf j := by
  cases j with
  | str s => exact String.append_empty
  | _ => rfl

theorem textItem_plain {j : Json} {i : Item} (h : i ∈ textItem j) : i.plain = true := by
  cases j with
  | str s =>
    obtain rfl := List.mem_singleton.mp h
    rfl
  | _ => cases h

theorem refusalItem_plain {j : Json} {i : Item} (h : i ∈ refusalItem j) : i.plain = true := by
  cases j with
  | str s =>
    obtain rfl := List.mem_singleton.mp h
    rfl
  | _ => cases h

theorem pointer_read {j : Json} {o : Option String} (h : pointer "" string none j = some o) :
    o.getD "" = stringOf j := by
  cases j with
  | null =>
    obtain rfl := Option.some.inj h
    rfl
  | str s =>
    obtain rfl := Option.some.inj h
    rfl
  | bool b => cases h
  | num lit => cases h
  | arr xs => cases h
  | obj fs => cases h

/-- A raw field that was left empty had no member. -/
theorem absent_of_raw {α : Type} {fields : List (GoJson.Field α)} {name : String}
    {get : α → Option Json} (hr : Reads fields name get raw) {fs : List (String × Json)} {a a' : α}
    (hj : distinct (.obj fs) = true) (h : struct false fields a (.obj fs) = some a')
    (hnone : (get a').isSome = false) : ∀ f ∈ fs, foldName f.1 ≠ foldName name := by
  intro f hf hname
  rw [GoJson.struct_raw_taken hr hj h hf hname] at hnone
  cases hnone

def finishes : List String := ["", "stop", "length", "content_filter"]

theorem finish_mem {s f : String} (h : finish s = .ok f) : f ∈ finishes := by
  unfold finish at h
  split at h
  · cases h
    decide
  · split at h
    · cases h
      decide
    · split at h
      · cases h
        decide
      · cases h

theorem bedrockFinish_mem {s f : String} (h : bedrockFinish s = .ok f) : f ∈ finishes := by
  unfold bedrockFinish at h
  split at h
  · cases h
    decide
  · split at h
    · cases h
      decide
    · split at h
      · cases h
        decide
      · cases h

theorem message_read {m : Json} {t : OpenAIText} (hm : distinct m = true)
    (ht : struct false openAITextFields {} m = some t) (hcalls : noToolCalls t.toolCalls = true) :
    messageItems m = (textItem (member "content" m) ++ refusalItem (member "refusal" m)) ++
        others ["role", "annotations", "content", "refusal", "tool_calls"] m ∧
      t.content.getD "" ++ t.refusal.getD "" =
        spoken (textItem (member "content" m) ++ refusalItem (member "refusal" m)) := by
  constructor
  · unfold messageItems
    refine congrArg (List.append _) (Eq.symm ?_)
    refine @others_known ["role", "annotations", "content", "refusal"] ["tool_calls"] m ?_
    intro fs hfs f hf n hn hname
    obtain rfl := List.mem_singleton.mp hn
    subst hfs
    rw [GoJson.struct_raw_taken reads_toolCalls hm ht hf hname] at hcalls
    cases hv : f.2 with
    | null => rfl
    | arr xs =>
      rw [hv] at hcalls
      cases xs with
      | nil => rfl
      | cons x xs => cases hcalls
    | _ =>
      rw [hv] at hcalls
      cases hcalls
  · rw [spoken_append, spoken_textItem, spoken_refusalItem,
      pointer_read (GoJson.struct_taken reads_text hm rfl ht),
      pointer_read (GoJson.struct_taken reads_refusal hm rfl ht)]

/-- The text of a choice that is looked at. -/
def Choice.side (stream : Bool) (c : Choice) : OpenAIText := if stream then c.delta else c.message

theorem side_read {x : Json} {c : Choice} (stream : Bool) (hx : distinct x = true)
    (hc : struct false choiceFields {} x = some c) :
    struct false openAITextFields {} (member (if stream then "delta" else "message") x) =
      some (Choice.side stream c) := by
  cases stream with
  | false => exact GoJson.struct_taken reads_message hx rfl hc
  | true => exact GoJson.struct_taken reads_choiceDelta hx rfl hc

theorem openaiChoice_ok {stream : Bool} {n : Normalized} {c : Choice}
    (h : (openaiChoice stream n c).err = none) (hn : n.text = "") (hf : n.finish ∈ finishes) :
    noToolCalls (Choice.side stream c).toolCalls = true ∧
      (openaiChoice stream n c).n.text =
        (Choice.side stream c).content.getD "" ++ (Choice.side stream c).refusal.getD "" ∧
      (openaiChoice stream n c).n.finish ∈ finishes := by
  unfold openaiChoice at h ⊢
  split at h
  · cases h
  · rename_i hindex
    rw [if_neg hindex]
    dsimp only at h ⊢
    change (if (!noToolCalls (Choice.side stream c).toolCalls) = true then _ else _ : Reading).err = none at h
    change _ ∧ (if (!noToolCalls (Choice.side stream c).toolCalls) = true then _ else _ : Reading).n.text = _ ∧
      (if (!noToolCalls (Choice.side stream c).toolCalls) = true then _ else _ : Reading).n.finish ∈ _
    cases hcalls : noToolCalls (Choice.side stream c).toolCalls with
    | false =>
      rw [hcalls] at h
      cases h
    | true =>
      rw [hcalls] at h
      simp only [Bool.not_true, Bool.false_eq_true, if_false] at h ⊢
      rw [hn]
      split at h
      · exact ⟨trivial, rfl, hf⟩
      · split at h
        · cases h
        · rename_i f hfinish
          exact ⟨trivial, rfl, finish_mem hfinish⟩

theorem openai_seen {j : Json} {w : Wire} {stream : Bool} (hj : distinct j = true)
    (hw : struct false wireFields {} j = some w) (hok : (normalizeOpenAI w stream).err = none) :
    Seen (items "openai" stream j) (unseen "openai" stream j) (normalizeOpenAI w stream).n.text ∧
      (normalizeOpenAI w stream).n.finish ∈ finishes := by
  have hch := GoJson.slice_elems (GoJson.struct_taken reads_choices hj rfl hw)
  have hdistinct := GoJson.distinct_elems (GoJson.distinct_member hj "choices")
  unfold normalizeOpenAI at hok ⊢
  show Seen (openaiItems stream j) ((elems (member "choices" j)).flatMap _) _ ∧ _
  unfold openaiItems
  generalize elems (member "choices" j) = xs at hch hdistinct
  split at hok
  · rename_i hnone
    rw [hnone] at hch
    cases hch
    exact ⟨Seen.blind [], List.mem_cons_self⟩
  · rename_i c hone
    rw [hone] at hch
    obtain ⟨x, rest, hx, hrest, rfl⟩ := List.forall₂_cons_right_iff.mp hch
    cases hrest
    have hx' := hdistinct x List.mem_cons_self
    obtain ⟨hcalls, htext, hfinish⟩ := openaiChoice_ok hok rfl List.mem_cons_self
    obtain ⟨hsplit, hspoken⟩ :=
      message_read (GoJson.distinct_member hx' _) (side_read stream hx' hx) hcalls
    refine ⟨Seen.pieces (fun c =>
      textItem (member "content" (member (if stream then "delta" else "message") c)) ++
        refusalItem (member "refusal" (member (if stream then "delta" else "message") c))) ?_ ?_ ?_ ?_, hfinish⟩
    · intro y hy
      obtain rfl := List.mem_singleton.mp hy
      exact hsplit
    · intro y _ i hi
      rcases List.mem_append.mp hi with hi | hi
      · exact textItem_plain hi
      · exact refusalItem_plain hi
    · exact fun y _ i hi => (others_other hi).2
    · rw [List.flatMap_singleton, htext, hspoken]
  · cases hok

theorem block_read {x : Json} {b : Block} (hx : distinct x = true)
    (hb : struct false blockFields {} x = some b) :
    b.type = stringOf (member "type" x) ∧ b.text = stringOf (member "text" x) :=
  ⟨GoJson.string_read (GoJson.struct_taken reads_blockType hx rfl hb),
    GoJson.string_read (GoJson.struct_taken reads_blockText hx rfl hb)⟩

theorem anthropicBlocks_read {xs : List Json} {bs : List Block} {n n' : Normalized}
    (h : List.Forall₂ (fun x b => struct false blockFields {} x = some b) xs bs)
    (hxs : ∀ x ∈ xs, distinct x = true) (hok : anthropicBlocks n bs = (n', none)) :
    (∀ i ∈ xs.map (typedItem "text"), i.plain = true) ∧
      n'.text = n.text ++ spoken (xs.map (typedItem "text")) ∧ n'.finish = n.finish := by
  induction h generalizing n with
  | nil =>
    cases hok
    exact ⟨fun _ hi => (nomatch hi), String.append_empty.symm, rfl⟩
  | @cons x b xs bs hb _ ih =>
    obtain ⟨htype, htext⟩ := block_read (hxs x List.mem_cons_self) hb
    unfold anthropicBlocks at hok
    split at hok
    · cases hok
    · rename_i htyped
      rw [not_not, htype] at htyped
      have hitem : typedItem "text" x = .text b.text := by
        unfold typedItem
        rw [if_pos htyped, htext]
      obtain ⟨hplain, hrest, hfinish⟩ := ih (fun y hy => hxs y (List.mem_cons_of_mem _ hy)) hok
      refine ⟨?_, ?_, hfinish⟩
      · rw [List.map_cons, hitem]
        exact List.forall_mem_cons.mpr ⟨rfl, hplain⟩
      · rw [hrest, List.map_cons, hitem, String.append_assoc]
        rfl

theorem typedItem_read {type t : String} {b : Json} (h : stringOf (member "type" b) = type)
    (ht : t = stringOf (member "text" b)) : Seen [typedItem type b] [] t := by
  have hitem : typedItem type b = .text t := by
    unfold typedItem
    rw [if_pos h, ht]
  rw [hitem]
  refine Seen.whole (fun i hi => ?_) String.append_empty.symm
  obtain rfl := List.mem_singleton.mp hi
  rfl

theorem anthropicFrame_ok {n : Normalized} {w : Wire} {r : Reading} (hr : anthropicFrame n w = r)
    (h : r.err = none) (hf : n.finish ∈ finishes) : r.n.finish ∈ finishes ∧
      (w.type = "content_block_start" ∧ w.contentBlock.type = "text" ∧
          r.n.text = w.contentBlock.text ∨
        w.type = "content_block_delta" ∧ w.delta.type = "text_delta" ∧ r.n.text = w.delta.text ∨
        w.type ≠ "content_block_start" ∧ w.type ≠ "content_block_delta" ∧ r.n.text = n.text) := by
  unfold anthropicFrame at hr
  by_cases hstart : w.type = "content_block_start"
  · rw [if_pos hstart] at hr
    split at hr <;> subst hr
    · cases h
    · rename_i htype
      exact ⟨hf, .inl ⟨hstart, not_not.mp htype, rfl⟩⟩
  rw [if_neg hstart] at hr
  by_cases hdelta : w.type = "content_block_delta"
  · rw [if_pos hdelta] at hr
    split at hr <;> subst hr
    · cases h
    · rename_i htype
      exact ⟨hf, .inr (.inl ⟨hdelta, not_not.mp htype, rfl⟩)⟩
  rw [if_neg hdelta] at hr
  have hkeep : ∀ done f, f ∈ finishes → (⟨{ n with finish := f }, done, none⟩ : Reading) = r →
      r.n.finish ∈ finishes ∧ r.n.text = n.text := by
    rintro done f hf rfl
    exact ⟨hf, rfl⟩
  have hrest : r.n.finish ∈ finishes ∧ r.n.text = n.text := by
    split at hr
    · split at hr
      · exact hkeep false _ hf hr
      · split at hr
        · subst hr
          cases h
        · rename_i hfinish
          exact hkeep false _ (finish_mem hfinish) hr
    · split at hr
      · exact hkeep true _ hf hr
      · split at hr
        · exact hkeep false _ hf hr
        · subst hr
          cases h
  exact ⟨hrest.1, .inr (.inr ⟨hstart, hdelta, hrest.2⟩)⟩

theorem anthropicFrame_seen {j : Json} {w : Wire} {n : Normalized} (hj : distinct j = true)
    (hw : struct false wireFields {} j = some w) (hn : n.text = "") (hf : n.finish ∈ finishes)
    (hok : (anthropicFrame n w).err = none) :
    Seen (items "anthropic" true j) (unseen "anthropic" true j) (anthropicFrame n w).n.text ∧
      (anthropicFrame n w).n.finish ∈ finishes := by
  have htype : w.type = stringOf (member "type" j) :=
    GoJson.string_read (GoJson.struct_taken reads_type hj rfl hw)
  obtain ⟨hfinish, hcases⟩ := anthropicFrame_ok rfl hok hf
  refine ⟨?_, hfinish⟩
  show Seen (anthropicItems true j)
    (if true = true ∧ stringOf (member "type" j) = "message_start" then anthropicItems true j else []) _
  rcases hcases with ⟨hstart, hbtype, hbtext⟩ | ⟨hdelta, hdtype, hdtext⟩ | ⟨hstart, hdelta, hnone⟩
  · obtain ⟨hread, hreadText⟩ := block_read (GoJson.distinct_member hj "content_block")
      (GoJson.struct_taken reads_contentBlock hj rfl hw)
    rw [htype] at hstart
    unfold anthropicItems
    rw [if_pos rfl, if_pos hstart, hstart, if_neg (by decide), hbtext]
    exact typedItem_read (hread.symm.trans hbtype) hreadText
  · have hd := GoJson.struct_taken reads_delta hj rfl hw
    have hread := GoJson.struct_taken reads_deltaType (GoJson.distinct_member hj "delta") rfl hd
    have hreadText := GoJson.struct_taken reads_deltaText (GoJson.distinct_member hj "delta") rfl hd
    rw [htype] at hdelta
    unfold anthropicItems
    rw [if_pos rfl, hdelta, if_neg (by decide), if_pos rfl, if_neg (by decide), hdtext]
    exact typedItem_read ((GoJson.string_read hread).symm.trans hdtype) (GoJson.string_read hreadText)
  · rw [hnone, hn]
    rw [htype] at hstart hdelta
    by_cases hmessage : stringOf (member "type" j) = "message_start"
    · rw [if_pos ⟨rfl, hmessage⟩]
      exact Seen.blind _
    · rw [if_neg (fun h => hmessage h.2)]
      unfold anthropicItems
      rw [if_pos rfl, if_neg hstart, if_neg hdelta, if_neg hmessage]
      exact Seen.blind []

theorem anthropic_seen {j : Json} {w : Wire} {stream : Bool} (hj : distinct j = true)
    (hw : struct false wireFields {} j = some w) (hok : (normalizeAnthropic w stream).err = none) :
    Seen (items "anthropic" stream j) (unseen "anthropic" stream j)
        (normalizeAnthropic w stream).n.text ∧
      (normalizeAnthropic w stream).n.finish ∈ finishes := by
  cases stream with
  | true => exact anthropicFrame_seen hj hw rfl List.mem_cons_self hok
  | false =>
    have hblocks := GoJson.slice_elems (GoJson.struct_taken reads_content hj rfl hw)
    have hdistinct := GoJson.distinct_elems (GoJson.distinct_member hj "content")
    unfold normalizeAnthropic at hok ⊢
    rw [if_neg Bool.false_ne_true] at hok ⊢
    cases hread : anthropicBlocks _ w.content with
    | mk n e =>
      rw [hread] at hok
      cases e with
      | some e => cases hok
      | none =>
        obtain ⟨hplain, htext, -⟩ := anthropicBlocks_read hblocks hdistinct hread
        rw [String.empty_append] at htext
        dsimp only at hok ⊢
        split at hok
        · cases hok
        · rename_i hfinish
          exact ⟨Seen.whole hplain htext, finish_mem hfinish⟩

/-- The two raw fields of a part being empty, the members of those names are absent. -/
theorem part_read {p : Json} {a : Part} (hp : distinct p = true)
    (ha : struct false partFields {} p = some a)
    (hnone : (a.function.isSome || a.inlineData.isSome) = false) :
    partItems p = partText p ++
        others ["text", "thought", "thoughtSignature", "functionCall", "inlineData"] p ∧
      spoken (partText p) = if a.thought then "" else a.text := by
  obtain ⟨hfunction, hinline⟩ := Bool.or_eq_false_iff.mp hnone
  constructor
  · refine congrArg (List.append _) (Eq.symm ?_)
    refine @others_known ["text", "thought", "thoughtSignature"] ["functionCall", "inlineData"] p ?_
    intro fs hfs f hf n hn hname
    subst hfs
    rcases List.mem_cons.mp hn with rfl | hn
    · exact (absent_of_raw reads_function hp ha hfunction f hf hname).elim
    · obtain rfl := List.mem_singleton.mp hn
      exact (absent_of_raw reads_inlineData hp ha hinline f hf hname).elim
  · have htext := GoJson.string_read (GoJson.struct_taken reads_partText hp rfl ha)
    have hthought : a.thought = thoughtful (member "thought" p) := by
      have hread := GoJson.struct_taken reads_thought hp rfl ha
      cases hm : member "thought" p with
      | null => rw [hm] at hread; exact (Option.some.inj hread).symm
      | bool b => rw [hm] at hread; exact (Option.some.inj hread).symm
      | _ => rw [hm] at hread; cases hread
    unfold partText
    rw [hthought, htext]
    split
    · rfl
    · exact spoken_textItem _

theorem partText_plain {p : Json} {i : Item} (h : i ∈ partText p) : i.plain = true := by
  unfold partText at h
  split at h
  · obtain rfl := List.mem_singleton.mp h
    rfl
  · exact textItem_plain h

theorem geminiParts_read {xs : List Json} {ps : List Part} {n n' : Normalized}
    (h : List.Forall₂ (fun x p => struct false partFields {} x = some p) xs ps)
    (hxs : ∀ x ∈ xs, distinct x = true) (hok : geminiParts n ps = (n', none)) :
    (∀ x ∈ xs, partItems x = partText x ++
        others ["text", "thought", "thoughtSignature", "functionCall", "inlineData"] x) ∧
      n'.text = n.text ++ spoken (xs.flatMap partText) ∧ n'.finish = n.finish := by
  induction h generalizing n with
  | nil =>
    cases hok
    exact ⟨fun _ hi => (nomatch hi), String.append_empty.symm, rfl⟩
  | @cons x p xs ps hp _ ih =>
    unfold geminiParts at hok
    split at hok
    · cases hok
    · rename_i hnone
      obtain ⟨hsplit, hspoken⟩ :=
        part_read (hxs x List.mem_cons_self) hp (Bool.not_eq_true _ ▸ hnone)
      obtain ⟨hrest, htext, hfinish⟩ := ih (fun y hy => hxs y (List.mem_cons_of_mem _ hy)) hok
      refine ⟨List.forall_mem_cons.mpr ⟨hsplit, hrest⟩, ?_, ?_⟩
      · rw [htext, List.flatMap_cons, spoken_append, hspoken, ← String.append_assoc]
        cases p.thought with
        | true => simp
        | false => rfl
      · rw [hfinish]
        cases p.thought <;> rfl

theorem geminiCandidate_ok {n : Normalized} {c : Candidate}
    (h : (geminiCandidate n c).err = none) : ∃ n', geminiParts n c.parts = (n', none) ∧
      (geminiCandidate n c).n.text = n'.text ∧
      (n'.finish ∈ finishes → (geminiCandidate n c).n.finish ∈ finishes) := by
  unfold geminiCandidate at h ⊢
  split at h
  · cases h
  · rename_i hindex
    rw [if_neg hindex]
    cases hparts : geminiParts n c.parts with
    | mk n' e =>
      rw [hparts] at h
      cases e with
      | some e => cases h
      | none =>
        refine ⟨n', rfl, ?_⟩
        dsimp only at h ⊢
        split at h
        · rename_i hopen
          rw [if_pos hopen]
          exact ⟨rfl, id⟩
        · rename_i hclosed
          rw [if_neg hclosed]
          split at h
          · cases h
          · rename_i hfinish
            exact ⟨rfl, fun _ => finish_mem hfinish⟩

theorem gemini_seen {j : Json} {w : Wire} (stream : Bool) (hj : distinct j = true)
    (hw : struct false wireFields {} j = some w) (hok : (normalizeGemini w).err = none) :
    Seen (items "gemini" stream j) (unseen "gemini" stream j) (normalizeGemini w).n.text ∧
      (normalizeGemini w).n.finish ∈ finishes := by
  have hblock : w.block = stringOf (member "blockReason" (member "promptFeedback" j)) :=
    GoJson.string_read (GoJson.struct_taken (reads_only "blockReason" string)
      (GoJson.distinct_member hj _) rfl (GoJson.struct_taken reads_block hj rfl hw))
  have hcs := GoJson.slice_elems (GoJson.struct_taken reads_candidates hj rfl hw)
  have hdistinct := GoJson.distinct_elems (GoJson.distinct_member hj "candidates")
  show Seen (geminiItems j) (if stringOf (member "blockReason" (member "promptFeedback" j)) ≠ "" then
    geminiItems j else _) _ ∧ _
  rw [← hblock]
  unfold normalizeGemini at hok ⊢
  by_cases hblocked : w.block ≠ ""
  · rw [if_pos hblocked, if_pos hblocked]
    exact ⟨Seen.blind _, List.mem_cons_of_mem _ (by simp)⟩
  · rw [if_neg hblocked] at hok ⊢
    rw [if_neg hblocked]
    unfold geminiItems
    generalize elems (member "candidates" j) = xs at hcs hdistinct
    split at hok
    · rename_i hnone
      rw [hnone] at hcs
      cases hcs
      exact ⟨Seen.blind [], List.mem_cons_self⟩
    · rename_i c hone
      rw [hone] at hcs
      obtain ⟨x, rest, hx, hrest, rfl⟩ := List.forall₂_cons_right_iff.mp hcs
      cases hrest
      have hx' := hdistinct x List.mem_cons_self
      have hparts := GoJson.slice_elems (GoJson.struct_taken (reads_only "parts" _)
        (GoJson.distinct_member hx' _) rfl (GoJson.struct_taken reads_parts hx' rfl hx))
      have hps := GoJson.distinct_elems (GoJson.distinct_member (GoJson.distinct_member hx' "content") "parts")
      obtain ⟨n', hread, htext, hfinish⟩ := geminiCandidate_ok hok
      obtain ⟨hsplit, hspoken, hkeep⟩ := geminiParts_read hparts hps hread
      rw [List.flatMap_singleton, List.flatMap_singleton]
      refine ⟨Seen.pieces partText hsplit (fun _ _ _ hi => partText_plain hi)
        (fun _ _ _ hi => (others_other hi).2) ?_, hfinish ?_⟩
      · rw [htext, hspoken]
        exact String.empty_append
      · rw [hkeep]
        exact List.mem_cons_self
    · cases hok

theorem converse_read {x : Json} {b : BedrockBlock} (hx : distinct x = true)
    (hb : struct false bedrockBlockFields {} x = some b)
    (hnone : (b.toolUse.isSome || b.reasoning.isSome) = false) :
    bedrockItems x = textItem (member "text" x) ++ others ["text", "toolUse", "reasoningContent"] x ∧
      spoken (textItem (member "text" x)) = b.text := by
  obtain ⟨htool, hreasoning⟩ := Bool.or_eq_false_iff.mp hnone
  constructor
  · refine congrArg (List.append _) (Eq.symm ?_)
    refine @others_known ["text"] ["toolUse", "reasoningContent"] x ?_
    intro fs hfs f hf n hn hname
    subst hfs
    rcases List.mem_cons.mp hn with rfl | hn
    · exact (absent_of_raw reads_toolUse hx hb htool f hf hname).elim
    · obtain rfl := List.mem_singleton.mp hn
      exact (absent_of_raw reads_reasoning hx hb hreasoning f hf hname).elim
  · rw [spoken_textItem]
    exact (GoJson.string_read (GoJson.struct_taken reads_converseText hx rfl hb)).symm

theorem bedrockBlocks_read {xs : List Json} {bs : List BedrockBlock} {n n' : Normalized}
    (h : List.Forall₂ (fun x b => struct false bedrockBlockFields {} x = some b) xs bs)
    (hxs : ∀ x ∈ xs, distinct x = true) (hok : bedrockBlocks n bs = (n', none)) :
    (∀ x ∈ xs, bedrockItems x =
        textItem (member "text" x) ++ others ["text", "toolUse", "reasoningContent"] x) ∧
      n'.text = n.text ++ spoken (xs.flatMap (fun x => textItem (member "text" x))) := by
  induction h generalizing n with
  | nil =>
    cases hok
    exact ⟨fun _ hi => (nomatch hi), String.append_empty.symm⟩
  | @cons x b xs bs hb _ ih =>
    unfold bedrockBlocks at hok
    split at hok
    · cases hok
    · rename_i hnone
      obtain ⟨hsplit, hspoken⟩ :=
        converse_read (hxs x List.mem_cons_self) hb (Bool.not_eq_true _ ▸ hnone)
      obtain ⟨hrest, htext⟩ := ih (fun y hy => hxs y (List.mem_cons_of_mem _ hy)) hok
      refine ⟨List.forall_mem_cons.mpr ⟨hsplit, hrest⟩, ?_⟩
      rw [htext, List.flatMap_cons, spoken_append, hspoken, ← String.append_assoc]

theorem bedrock_seen {b : Bytes} {j : Json} (hscan : GoJson.scan b = some j) (hj : distinct j = true)
    (hok : (normalizeBedrock b).err = none) :
    Seen (items "bedrock" false j) (unseen "bedrock" false j) (normalizeBedrock b).n.text ∧
      (normalizeBedrock b).n.finish ∈ finishes := by
  unfold normalizeBedrock at hok ⊢
  cases hw : bedrockWire b with
  | none =>
    rw [hw] at hok
    cases hok
  | some w =>
    rw [hw] at hok
    have hstruct : struct false bedrockWireFields {} j = some w := by
      rwa [bedrockWire, GoJson.unmarshal, hscan] at hw
    have hblocks := GoJson.slice_elems (GoJson.struct_taken (reads_only "content" _)
      (GoJson.distinct_member (GoJson.distinct_member hj _) _) rfl
      (GoJson.struct_taken (reads_only "message" _) (GoJson.distinct_member hj _) rfl
        (GoJson.struct_taken reads_converse hj rfl hstruct)))
    have hdistinct := GoJson.distinct_elems (GoJson.distinct_member (GoJson.distinct_member
      (GoJson.distinct_member hj "output") "message") "content")
    cases hread : bedrockBlocks {} w.content with
    | mk n e =>
      dsimp only at hok ⊢
      rw [hread] at hok ⊢
      cases e with
      | some e => cases hok
      | none =>
        obtain ⟨hsplit, htext⟩ := bedrockBlocks_read hblocks hdistinct hread
        dsimp only at hok ⊢
        split at hok
        · cases hok
        · rename_i hfinish
          refine ⟨Seen.pieces (fun x => textItem (member "text" x)) hsplit
            (fun _ _ _ hi => textItem_plain hi) (fun _ _ _ hi => (others_other hi).2) ?_,
            bedrockFinish_mem hfinish⟩
          exact htext.trans String.empty_append

theorem bedrockStream_seen {b : Bytes} {j : Json} (hscan : GoJson.scan b = some j)
    (hj : distinct j = true) (hok : (normalizeBedrockStream b).err = none) :
    Seen (items "bedrock" true j) (unseen "bedrock" true j) (normalizeBedrockStream b).n.text ∧
      (normalizeBedrockStream b).n.finish ∈ finishes := by
  unfold normalizeBedrockStream at hok ⊢
  cases hw : bedrockWire b with
  | none =>
    rw [hw] at hok
    cases hok
  | some w =>
    rw [hw] at hok
    have hstruct : struct false bedrockWireFields {} j = some w := by
      rwa [bedrockWire, GoJson.unmarshal, hscan] at hw
    have htext : w.deltaText = stringOf (member "text" (member "delta" j)) :=
      GoJson.string_read (GoJson.struct_taken (reads_only "text" string)
        (GoJson.distinct_member hj _) rfl (GoJson.struct_taken reads_converseDelta hj rfl hstruct))
    have hseen : Seen (items "bedrock" true j) (unseen "bedrock" true j) w.deltaText := by
      have hone := @Seen.pieces _ [j] (converseItems true) (unseen "bedrock" true) w.deltaText
        (fun j => textItem (member "text" (member "delta" j))) ?_ ?_ ?_ ?_
      · rwa [List.flatMap_singleton, List.flatMap_singleton] at hone
      · exact fun _ _ => List.append_assoc _ _ _
      · exact fun _ _ _ hi => textItem_plain hi
      · intro x _ i hi
        rcases List.mem_append.mp hi with hi | hi
        · exact (others_other hi).2
        · exact (others_other hi).2
      · rw [List.flatMap_singleton, spoken_textItem, htext]
    dsimp only at hok ⊢
    split at hok
    · rename_i hopen
      rw [if_pos hopen]
      exact ⟨hseen, List.mem_cons_self⟩
    · rename_i hclosed
      rw [if_neg hclosed]
      split at hok
      · cases hok
      · rename_i hfinish
        exact ⟨hseen, bedrockFinish_mem hfinish⟩

/-- A response of the other three that is accepted. -/
theorem normalize_wire {provider : String} {b : Bytes} {stream : Bool} {j : Json}
    (hscan : GoJson.scan b = some j) (hp : provider ≠ "bedrock")
    (hok : (normalize provider b stream).err = none) :
    ∃ w, struct false wireFields {} j = some w ∧ (normalizeWire provider w stream).err = none ∧
      (normalize provider b stream).n = (normalizeWire provider w stream).n := by
  unfold Gateway.normalize at hok ⊢
  rw [if_neg hp] at hok ⊢
  have hread : GoJson.unmarshal {} (struct false wireFields) b = struct false wireFields {} j := by
    rw [GoJson.unmarshal, hscan]
    rfl
  rw [hread] at hok ⊢
  cases hw : struct false wireFields {} j with
  | none =>
    rw [hw] at hok
    cases hok
  | some w =>
    rw [hw] at hok
    refine ⟨w, rfl, ?_⟩
    dsimp only at hok ⊢
    split at hok
    · cases hok
    · rename_i herror
      rw [if_neg herror]
      split at hok
      · cases hok
      · rename_i hcomplete
        rw [if_neg hcomplete]
        exact ⟨hok, rfl⟩

theorem normalize_seen {provider : String} {b : Bytes} {stream : Bool} {j : Json}
    (hp : provider ∈ ["openai", "anthropic", "gemini", "bedrock"]) (hscan : GoJson.scan b = some j)
    (hj : distinct j = true) (hok : (normalize provider b stream).err = none) :
    Seen (items provider stream j) (unseen provider stream j) (normalize provider b stream).n.text ∧
      (normalize provider b stream).n.finish ∈ finishes := by
  simp only [List.mem_cons, List.not_mem_nil, or_false] at hp
  rcases hp with rfl | rfl | rfl | rfl
  · obtain ⟨w, hw, hwire, hn⟩ := normalize_wire hscan (by decide) hok
    rw [hn]
    exact openai_seen hj hw hwire
  · obtain ⟨w, hw, hwire, hn⟩ := normalize_wire hscan (by decide) hok
    rw [hn]
    exact anthropic_seen hj hw hwire
  · obtain ⟨w, hw, hwire, hn⟩ := normalize_wire hscan (by decide) hok
    rw [hn]
    exact gemini_seen stream hj hw hwire
  · cases stream with
    | false => exact bedrock_seen hscan hj hok
    | true => exact bedrockStream_seen hscan hj hok

/-- The finish of an accepted response is of the caller's vocabulary, and the response is
answered as its content says exactly when it has no content that the reader does not look at. -/
theorem normalize_faithful_iff {provider : String} {b : Bytes} {stream : Bool} {j : Json}
    (hp : provider ∈ ["openai", "anthropic", "gemini", "bedrock"]) (hscan : GoJson.scan b = some j)
    (hj : distinct j = true) (hok : (normalize provider b stream).err = none) :
    (normalize provider b stream).n.finish ∈ finishes ∧
      (Faithful (items provider stream j) (normalize provider b stream).n.text ↔
        ∀ i ∈ unseen provider stream j, i.plain = true ∧ i.spoken = "") := by
  obtain ⟨hseen, hfinish⟩ := normalize_seen hp hscan hj hok
  exact ⟨hfinish, hseen.faithful_iff⟩

/-- A complete response of Gemini's with one part. -/
def geminiResponse (part : List (String × Json)) : Json :=
  .obj [("candidates", .arr [.obj [("index", Json.int 0),
    ("content", .obj [("parts", .arr [.obj part])]), ("finishReason", .str "STOP")]])]

def greetingPart : List (String × Json) := [("text", .str "hi")]

def codePart : List (String × Json) :=
  [("text", .str "run this:"), ("executableCode", .obj [("code", .str "1/0")])]

theorem normalize_faithful_iff_greeting :
    Faithful (items "gemini" false (geminiResponse greetingPart))
      (normalize "gemini" (GoJson.marshal (geminiResponse greetingPart)) false).n.text := by
  have hover : Json.Over (fun _ => True) (geminiResponse greetingPart) := by
    simp [geminiResponse, greetingPart, Json.Over, Json.OverFields, Json.OverElems, Json.OverField,
      Json.numeral_int, Json.int, Json.spelled_any]
  refine (normalize_faithful_iff (by decide) (GoJson.scan_marshal hover (by decide)) (by decide)
    ?_).2.mpr (by decide)
  decide +kernel

/-- Code to run is dropped from an answer that is taken as complete. -/
theorem executable_code_is_dropped :
    (normalize "gemini" (GoJson.marshal (geminiResponse codePart)) false).err = none ∧
      (normalize "gemini" (GoJson.marshal (geminiResponse codePart)) false).done = true ∧
      (normalize "gemini" (GoJson.marshal (geminiResponse codePart)) false).n.text = "run this:" ∧
      ¬ Faithful (items "gemini" false (geminiResponse codePart)) "run this:" := by
  have hread : (normalize "gemini" (GoJson.marshal (geminiResponse codePart)) false).err = none ∧
      (normalize "gemini" (GoJson.marshal (geminiResponse codePart)) false).done = true ∧
      (normalize "gemini" (GoJson.marshal (geminiResponse codePart)) false).n.text = "run this:" := by
    decide +kernel
  refine ⟨hread.1, hread.2.1, hread.2.2, fun h => ?_⟩
  have hplain := h.plain (.other "executableCode") (by decide)
  cases hplain

end Switchboard.Proofs.Content
