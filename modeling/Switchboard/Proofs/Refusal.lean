import Switchboard.Proofs.Bedrock

namespace Switchboard.Proofs.Refusal
open Text Gateway Bedrock
open Watch (assembled)

/-- One block of an answer. What a tool or the reasoning says does not matter here. -/
inductive Block where
  | text (s : String)
  | toolUse
  | reasoning
deriving DecidableEq

def Block.unsupported : Block → Bool
  | .text _ => false
  | .toolUse => true
  | .reasoning => true

/-- A generation: its blocks, and why it ended. -/
structure Generation where
  blocks : List Block
  stop : String

/-- A block as it is in a complete response. -/
def SameBlock (b : BedrockBlock) : Block → Prop
  | .text s => b.toolUse = none ∧ b.reasoning = none ∧ b.text = s
  | .toolUse => b.toolUse.isSome = true
  | .reasoning => b.reasoning.isSome = true

/-- The generation as a complete response. -/
def Complete (g : Generation) (data : Bytes) : Prop :=
  ∃ w, bedrockWire data = some w ∧ w.stopReason = g.stop ∧ List.Forall₂ SameBlock w.content g.blocks

/-- What a delta of a block carries. -/
def DeltaOf (m : StreamMessage) : Block → Prop
  | .text _ => True
  | .toolUse => (reading m).deltaText = "" ∧ Strings.contains m.payload (ascii "\"toolUse\"") = true
  | .reasoning =>
    (reading m).deltaText = "" ∧ Strings.contains m.payload (ascii "\"reasoningContent\"") = true

/-- The events of a block: its start, which may be missing and of a text names nothing
else, its deltas, and its end. -/
structure BlockEvents (b : Block) (es : List StreamMessage) : Prop where
  parts : ∃ starts deltas stops, es = starts ++ (deltas ++ stops) ∧
    (starts.length ≤ 1 ∧ ∀ m ∈ starts, m.kind = "contentBlockStart" ∧
      (b.unsupported = false → names m = false)) ∧
    (∀ m ∈ deltas, m.kind = "contentBlockDelta" ∧ DeltaOf m b) ∧
    (stops.length ≤ 1 ∧ ∀ m ∈ stops, m.kind = "contentBlockStop") ∧
    starts ++ deltas ≠ [] ∧
    ∀ s, b = .text s → String.join (deltas.map (fun m => (reading m).deltaText)) = s

/-- The generation as a sequence of events. -/
structure Carries (g : Generation) (ms : List StreamMessage) : Prop where
  wellFormed : ∀ m ∈ ms, WellFormed m
  parts : ∃ heads ess stop metas, ms = heads ++ (ess.flatten ++ stop :: metas) ∧
    (∀ m ∈ heads, m.kind = "messageStart") ∧ List.Forall₂ BlockEvents g.blocks ess ∧
    stop.kind = "messageStop" ∧ (reading stop).stopReason = g.stop ∧
    ∀ m ∈ metas, m.kind = "metadata"

theorem BlockEvents.kind {b : Block} {es : List StreamMessage} (h : BlockEvents b es) :
    ∀ m ∈ es, m.kind ≠ "messageStop" ∧ (forbidden m = true → b.unsupported = true) := by
  obtain ⟨starts, deltas, stops, rfl, ⟨-, hstarts⟩, hdeltas, ⟨-, hstops⟩, -, -⟩ := h.parts
  intro m hm
  rcases List.mem_append.mp hm with hm | hm
  · obtain ⟨hkind, hnames⟩ := hstarts m hm
    refine ⟨by simp [hkind], fun hforbidden => ?_⟩
    by_contra hsupported
    have hnone := hnames (Bool.eq_false_iff.mpr hsupported)
    simp [forbidden, hnone] at hforbidden
  · rcases List.mem_append.mp hm with hm | hm
    · have hkind := (hdeltas m hm).1
      exact ⟨by simp [hkind], fun hforbidden => by simp [forbidden, hkind] at hforbidden⟩
    · have hkind := hstops m hm
      exact ⟨by simp [hkind], fun hforbidden => by simp [forbidden, hkind] at hforbidden⟩

theorem reasons_none {ms : List StreamMessage} (h : ∀ m ∈ ms, m.kind ≠ "messageStop") :
    reasons ms = [] := by
  unfold reasons
  rw [List.filter_eq_nil_iff.mpr (fun m hm => by simp [h m hm])]
  rfl

theorem exists_block {bs : List Block} {ess : List (List StreamMessage)}
    (h : List.Forall₂ BlockEvents bs ess) {m : StreamMessage} (hm : m ∈ ess.flatten) :
    ∃ b ∈ bs, ∃ es, BlockEvents b es ∧ m ∈ es := by
  induction h with
  | nil => cases hm
  | cons hb _ ih =>
    rw [List.flatten_cons] at hm
    rcases List.mem_append.mp hm with hm | hm
    · exact ⟨_, List.mem_cons_self, _, hb, hm⟩
    · obtain ⟨b, hmem, es, hes, hm⟩ := ih hm
      exact ⟨b, List.mem_cons_of_mem _ hmem, es, hes, hm⟩

/-- The one reason to stop is the generation's. -/
theorem Carries.reasons {g : Generation} {ms : List StreamMessage} (h : Carries g ms) :
    Bedrock.reasons ms = [g.stop] := by
  obtain ⟨heads, ess, stop, metas, rfl, hheads, hess, hkind, hstop, hmetas⟩ := h.parts
  have hblocks : Bedrock.reasons ess.flatten = [] := by
    refine reasons_none (fun m hm => ?_)
    obtain ⟨b, -, es, hes, hm⟩ := exists_block hess hm
    exact (hes.kind m hm).1
  have hmetadata : Bedrock.reasons metas = [] :=
    reasons_none (fun m hm => by simp [hmetas m hm])
  have hsplit : stop :: metas = [stop] ++ metas := rfl
  rw [reasons_append, reasons_append, reasons_none (fun m hm => by simp [hheads m hm]), hblocks,
    hsplit, reasons_append, hmetadata]
  simp [Bedrock.reasons, hkind, hstop]

/-- Only a block that is not supported has a start that is refused. -/
theorem Carries.forbidden {g : Generation} {ms : List StreamMessage} (h : Carries g ms)
    (hm : ∃ m ∈ ms, forbidden m = true) : ∃ b ∈ g.blocks, b.unsupported = true := by
  obtain ⟨m, hm, hforbidden⟩ := hm
  obtain ⟨heads, ess, stop, metas, rfl, hheads, hess, hkind, -, hmetas⟩ := h.parts
  rcases List.mem_append.mp hm with hm | hm
  · simp [Bedrock.forbidden, hheads m hm] at hforbidden
  · rcases List.mem_append.mp hm with hm | hm
    · obtain ⟨b, hb, es, hes, hm⟩ := exists_block hess hm
      exact ⟨b, hb, (hes.kind m hm).2 hforbidden⟩
    · rcases List.mem_cons.mp hm with rfl | hm
      · simp [Bedrock.forbidden, hkind] at hforbidden
      · simp [Bedrock.forbidden, hmetas m hm] at hforbidden

theorem bedrockBlocks_ok (bs : List BedrockBlock) (n : Normalized) :
    (bedrockBlocks n bs).2 = none ↔ ∀ b ∈ bs, b.toolUse = none ∧ b.reasoning = none := by
  induction bs generalizing n with
  | nil => simp [bedrockBlocks]
  | cons b bs ih =>
    unfold bedrockBlocks
    split
    · rename_i hbad
      simp only [reduceCtorEq, false_iff]
      intro hall
      have hb := hall b List.mem_cons_self
      simp [hb.1, hb.2] at hbad
    · rename_i hgood
      simp only [Bool.or_eq_true, not_or, Bool.not_eq_true, Option.isSome_eq_false_iff,
        Option.isNone_iff_eq_none] at hgood
      rw [ih, List.forall_mem_cons]
      exact ⟨fun h => ⟨hgood, h⟩, fun h => h.2⟩

theorem supported_iff {bs : List BedrockBlock} {blocks : List Block}
    (h : List.Forall₂ SameBlock bs blocks) :
    (∀ b ∈ bs, b.toolUse = none ∧ b.reasoning = none) ↔ ∀ b ∈ blocks, b.unsupported = false := by
  induction h with
  | nil => simp
  | @cons b c bs cs hb _ ih =>
    rw [List.forall_mem_cons, List.forall_mem_cons, ih]
    have hsame : (b.toolUse = none ∧ b.reasoning = none) ↔ c.unsupported = false := by
      cases c with
      | text s => exact ⟨fun _ => rfl, fun _ => ⟨hb.1, hb.2.1⟩⟩
      | toolUse =>
        have htool : b.toolUse.isSome = true := hb
        refine ⟨fun h => ?_, fun h => (by cases h)⟩
        rw [h.1] at htool
        cases htool
      | reasoning =>
        have hreason : b.reasoning.isSome = true := hb
        refine ⟨fun h => ?_, fun h => (by cases h)⟩
        rw [h.2] at hreason
        cases hreason
    rw [hsame]

/-- A complete response is accepted exactly if all its blocks are text and its reason to
stop is known. -/
theorem normalizeBedrock_ok {g : Generation} {data : Bytes} (h : Complete g data) :
    (normalizeBedrock data).err = none ↔
      (∀ b ∈ g.blocks, b.unsupported = false) ∧ ∃ f, bedrockFinish g.stop = .ok f := by
  obtain ⟨w, hw, hstop, hblocks⟩ := h
  have hok := bedrockBlocks_ok w.content {}
  rw [supported_iff hblocks] at hok
  unfold normalizeBedrock
  rw [hw]
  dsimp only
  cases hrun : bedrockBlocks {} w.content with
  | mk n err =>
    rw [hrun] at hok
    cases err with
    | some e =>
      have hnot : ¬∀ b ∈ g.blocks, b.unsupported = false := by
        rw [← hok]
        simp
      simp [hnot]
    | none =>
      have hall := hok.mp rfl
      dsimp only
      rw [hstop]
      cases hfinish : bedrockFinish g.stop with
      | error e => simp
      | ok f => simpa using hall

theorem marshal_ne_done (t : String) : GoJson.marshal (deltaJson t) ≠ ascii "[DONE]" := by
  intro h
  have hhead : (GoJson.marshal (deltaJson t)).head? = some 123 := rfl
  rw [h] at hhead
  revert hhead
  decide

theorem assembled_texts (ts : List String) (rest : List Bytes) :
    (assembled "bedrock" (ts.map (fun s => GoJson.marshal (deltaJson s)) ++ rest)).isSome =
      (assembled "bedrock" rest).isSome := by
  induction ts with
  | nil => rfl
  | cons t ts ih =>
    simp [assembled, marshal_ne_done t, normalize_deltaJson, ih]

theorem marshal_final_ne_done (stop : String) (fs : List (String × Json)) :
    GoJson.marshal (.obj (("stopReason", .str stop) :: fs)) ≠ ascii "[DONE]" := by
  intro h
  have hhead : (GoJson.marshal (.obj (("stopReason", .str stop) :: fs))).head? = some 123 := rfl
  rw [h] at hhead
  revert hhead
  decide

theorem final_fields (t : Translation) : ∃ fs, t.final = .obj (("stopReason", .str t.stop) :: fs) := by
  by_cases h : ∃ u, GoJson.unmarshal (none : Option Json)
      (GoJson.struct false [GoJson.field "usage" id (fun _ v => v) GoJson.raw]) t.usage = some (some u)
  · obtain ⟨u, hu⟩ := h
    exact ⟨_, final_usage t hu⟩
  · exact ⟨_, final_none t (fun u hu => h ⟨u, hu⟩)⟩

/-- The trailer ends the stream well exactly if its reason to stop is known. -/
theorem assembled_final {ms : List StreamMessage} (h : ∀ m ∈ ms, WellFormed m)
    (hstop : (summary {} ms).stop ≠ "") :
    (assembled "bedrock" [GoJson.marshal (summary {} ms).final]).isSome = true ↔
      ∃ f, bedrockFinish (summary {} ms).stop = .ok f := by
  have hdone : GoJson.marshal (summary {} ms).final ≠ ascii "[DONE]" := by
    obtain ⟨fs, hfs⟩ := final_fields (summary {} ms)
    rw [hfs]
    exact marshal_final_ne_done _ fs
  cases hfinish : bedrockFinish (summary {} ms).stop with
  | ok f =>
    have hread := normalize_final h hstop hfinish
    simp [assembled, hdone, hread]
  | error e =>
    have hread : (normalize "bedrock" (GoJson.marshal (summary {} ms).final) true).err = some e := by
      unfold Gateway.normalize
      rw [if_pos rfl, if_pos rfl]
      unfold normalizeBedrockStream
      rw [(bedrockWire_final h).1]
      dsimp only
      rw [if_neg hstop, hfinish]
      rfl
    simp [assembled, hdone, hread]

/-- A stream is read to its end exactly if no start of a block was refused, the text was
within the limit and the reason to stop is known. -/
theorem assembled_translated {lib : Lib} {body : Body} {limit : Nat} {ms : List StreamMessage}
    (hms : lib.eventStream limit body = (ms, true)) (hwf : ∀ m ∈ ms, WellFormed m)
    (hlimit : total (texts ms) ≤ limit) (hframes : ∀ j ∈ frames ms, (sseFrame j).length < 1000000) :
    (assembled "bedrock" (readSSE (translateBedrockStream lib body limit)).1).isSome = true ↔
      (∀ m ∈ ms, forbidden m = false) ∧ ∃ f, bedrockFinish (summary {} ms).stop = .ok f := by
  have hpiped := readSSE_translated hms hwf hframes
  cases hrun : readSSE (translateBedrockStream lib body limit) with
  | mk events err =>
    rw [hrun] at hpiped
    cases hpiped with
    | whole hn _ hstop =>
      rw [assembled_texts, assembled_final hwf hstop]
      exact ⟨fun h => ⟨hn, h⟩, fun h => h.2⟩
    | broken ts hwhy =>
      have hnone : (assembled "bedrock" (ts.map (fun s => GoJson.marshal (deltaJson s)))).isSome =
          false := by
        have hnil := assembled_texts ts []
        rw [List.append_nil] at hnil
        exact hnil
      rw [hnone]
      refine ⟨fun h => (by cases h), fun h => ?_⟩
      obtain ⟨hn, f, hf⟩ := h
      rcases hwhy with ⟨m, hm, hforbidden⟩ | hlt | hnil
      · rw [hn m hm] at hforbidden
        cases hforbidden
      · omega
      · rw [hnil] at hf
        exact absurd hf bedrockFinish_nil

/-- The two ways to get an answer agree on refusing it exactly if an answer with a tool or
a reasoning block has a start event that names one, or a reason to stop that is refused
anyway. -/
theorem bedrock_refusals_agree_iff (lib : Lib) (body : Body) (limit : Nat) (g : Generation)
    (data : Bytes) (ms : List StreamMessage) (hms : lib.eventStream limit body = (ms, true))
    (hwhole : Complete g data) (hstream : Carries g ms) (hlimit : total (texts ms) ≤ limit)
    (hframes : ∀ j ∈ frames ms, (sseFrame j).length < 1000000) :
    (assembled "bedrock" (readSSE (translateBedrockStream lib body limit)).1 = none ↔
      (normalize "bedrock" data false).err ≠ none) ↔
    ((∃ b ∈ g.blocks, b.unsupported = true) →
      (∃ m ∈ ms, m.kind = "contentBlockStart" ∧ names m = true) ∨
        ∀ f, bedrockFinish g.stop ≠ .ok f) := by
  have hstop : (summary {} ms).stop = g.stop := by
    simp [summary, hstream.reasons]
  have hread := assembled_translated hms hstream.wellFormed hlimit hframes
  have hok := normalizeBedrock_ok hwhole
  have hnormalize : normalize "bedrock" data false = normalizeBedrock data := rfl
  have hstarts : (∃ m ∈ ms, m.kind = "contentBlockStart" ∧ names m = true) ↔
      ∃ m ∈ ms, forbidden m = true := by
    simp [forbidden]
  rw [hstop] at hread
  rw [hnormalize, hstarts, ← Option.not_isSome_iff_eq_none, hread, ne_eq, hok]
  by_cases hf : ∃ f, bedrockFinish g.stop = .ok f
  · by_cases hforbidden : ∃ m ∈ ms, forbidden m = true
    · have hblock := hstream.forbidden hforbidden
      obtain ⟨m, hm, hbad⟩ := hforbidden
      obtain ⟨b, hb, hunsupported⟩ := hblock
      refine ⟨fun _ _ => .inl ⟨m, hm, hbad⟩, fun _ => ⟨fun _ hall => ?_, fun _ hall => ?_⟩⟩
      · have hfalse := hall.1 b hb
        rw [hunsupported] at hfalse
        cases hfalse
      · have hfalse := hall.1 m hm
        rw [hbad] at hfalse
        cases hfalse
    · have hnone : ∀ m ∈ ms, forbidden m = false := by
        intro m hm
        exact Bool.eq_false_iff.mpr (fun hbad => hforbidden ⟨m, hm, hbad⟩)
      refine ⟨fun hagree hblock => ?_, fun hcond => ⟨fun hnot => absurd ⟨hnone, hf⟩ hnot, fun hnot => ?_⟩⟩
      · obtain ⟨b, hb, hunsupported⟩ := hblock
        refine absurd ⟨hnone, hf⟩ (hagree.mpr (fun hall => ?_))
        have hfalse := hall.1 b hb
        rw [hunsupported] at hfalse
        cases hfalse
      · exfalso
        refine hnot ⟨fun b hb => Bool.eq_false_iff.mpr (fun hunsupported => ?_), hf⟩
        rcases hcond ⟨b, hb, hunsupported⟩ with hbad | hno
        · exact hforbidden hbad
        · obtain ⟨f, hf⟩ := hf
          exact hno f hf
  · refine ⟨fun _ _ => .inr (fun f h => hf ⟨f, h⟩), fun _ => ⟨fun _ hall => hf hall.2, fun _ hall => hf hall.2⟩⟩

/-- An answer of one text, whole and in two deltas. -/
def plainAnswer : Generation := ⟨[.text "hello"], "end_turn"⟩

def plainWhole : Bytes :=
  ascii ("\x7b\"output\":\x7b\"message\":\x7b\"content\":[\x7b\"text\":\"hello\"\x7d]\x7d\x7d," ++
    "\"stopReason\":\"end_turn\"\x7d")

def plainEvents : List StreamMessage := [deltaMessage "he", deltaMessage "llo", stopMessage]

/-- An answer that reasons before it speaks. The events have no start of the first block. -/
def reasonedAnswer : Generation := ⟨[.reasoning, .text "hello"], "end_turn"⟩

def reasonedWhole : Bytes :=
  ascii ("\x7b\"output\":\x7b\"message\":\x7b\"content\":[\x7b\"reasoningContent\":\x7b\x7d\x7d," ++
    "\x7b\"text\":\"hello\"\x7d]\x7d\x7d,\"stopReason\":\"end_turn\"\x7d")

def reasoningDelta : StreamMessage :=
  ⟨"contentBlockDelta", ascii ("\x7b\"delta\":\x7b\"reasoningContent\":" ++
    "\x7b\"text\":\"hm\"\x7d\x7d\x7d")⟩

def reasonedEvents : List StreamMessage := reasoningDelta :: plainEvents

/-- A complete response of these blocks that ended its turn. -/
def wholeJson (blocks : List Json) : Json :=
  .obj [("output", .obj [("message", .obj [("content", .arr blocks)])]), ("stopReason", .str "end_turn")]

/-- What the recordings of these answers say. -/
theorem recordings_read :
    (String.join ([deltaMessage "he", deltaMessage "llo"].map (fun m => (reading m).deltaText)) = "hello" ∧
      (reading stopMessage).stopReason = "end_turn" ∧ ∀ m ∈ reasonedEvents, WellFormed m) ∧
    ((reading reasoningDelta).deltaText = "" ∧
      Strings.contains reasoningDelta.payload (ascii "\"reasoningContent\"") = true) ∧
    plainWhole = GoJson.marshal (wholeJson [.obj [("text", .str "hello")]]) ∧
    reasonedWhole = GoJson.marshal
      (wholeJson [.obj [("reasoningContent", .obj [])], .obj [("text", .str "hello")]]) := by
  decide +kernel

theorem plainText_events : BlockEvents (.text "hello") [deltaMessage "he", deltaMessage "llo"] := by
  refine ⟨⟨[], [deltaMessage "he", deltaMessage "llo"], [], rfl, by simp, ?_, by simp, by simp, ?_⟩⟩
  · intro m hm
    refine ⟨?_, trivial⟩
    simp only [List.mem_cons, List.not_mem_nil, or_false] at hm
    rcases hm with rfl | rfl
    · rfl
    · rfl
  · intro s hs
    obtain rfl := Block.text.inj hs
    exact recordings_read.1.1

theorem plainAnswer_carried : Carries plainAnswer plainEvents := by
  obtain ⟨-, hstop, hformed⟩ := recordings_read.1
  exact ⟨(List.forall_mem_cons.mp hformed).2, [], [[deltaMessage "he", deltaMessage "llo"]], stopMessage,
    [], rfl, by simp, .cons plainText_events .nil, rfl, hstop, by simp⟩

theorem bedrockWire_whole {blocks : List Json} (hover : Json.OverElems (fun _ => True) blocks)
    (hdepth : (wholeJson blocks).depth ≤ GoJson.maxNestingDepth) :
    bedrockWire (GoJson.marshal (wholeJson blocks)) =
      GoJson.struct false bedrockWireFields {} (wholeJson blocks) := by
  have hall : Json.Over (fun _ => True) (wholeJson blocks) := by
    simp [wholeJson, Json.Over, Json.OverFields, Json.OverField, Json.spelled_any, hover]
  rw [bedrockWire, GoJson.unmarshal, GoJson.scan_marshal hall hdepth, Option.bind_some]

theorem plainAnswer_complete : Complete plainAnswer plainWhole := by
  have hbytes : plainWhole = GoJson.marshal (wholeJson [.obj [("text", .str "hello")]]) :=
    recordings_read.2.2.1
  have hread : bedrockWire plainWhole =
      some { content := [{ text := "hello" }], stopReason := "end_turn" } := by
    rw [hbytes, bedrockWire_whole (by simp [Json.OverElems, Json.Over, Json.OverFields, Json.OverField,
      Json.spelled_any]) (by decide)]
    rfl
  exact ⟨_, hread, rfl, .cons ⟨rfl, rfl, rfl⟩ .nil⟩

theorem bedrock_refusals_agree_iff_plain :
    assembled "bedrock" (readSSE (translateBedrockStream (yielding plainEvents) ⟨[], false⟩ 100)).1 = none ↔
      (normalize "bedrock" plainWhole false).err ≠ none := by
  have hsmall : total (texts plainEvents) ≤ 100 ∧
      ∀ j ∈ frames plainEvents, (sseFrame j).length < 1000000 := by
    decide +kernel
  refine (bedrock_refusals_agree_iff (yielding plainEvents) ⟨[], false⟩ 100 plainAnswer plainWhole
    plainEvents rfl plainAnswer_complete plainAnswer_carried hsmall.1 hsmall.2).mpr ?_
  intro hblock
  obtain ⟨b, hb, hunsupported⟩ := hblock
  rw [List.mem_singleton.mp hb] at hunsupported
  cases hunsupported

theorem reasoning_events : BlockEvents .reasoning [reasoningDelta] := by
  refine ⟨⟨[], [reasoningDelta], [], rfl, by simp, ?_, by simp, by simp, fun s hs => by cases hs⟩⟩
  intro m hm
  rw [List.mem_singleton.mp hm]
  exact ⟨rfl, recordings_read.2.1⟩

theorem reasonedAnswer_carried : Carries reasonedAnswer reasonedEvents := by
  obtain ⟨-, hstop, hformed⟩ := recordings_read.1
  exact ⟨hformed, [], [[reasoningDelta], [deltaMessage "he", deltaMessage "llo"]], stopMessage,
    [], rfl, by simp, .cons reasoning_events (.cons plainText_events .nil), rfl, hstop, by simp⟩

theorem reasonedAnswer_complete : Complete reasonedAnswer reasonedWhole := by
  have hbytes : reasonedWhole = GoJson.marshal
      (wholeJson [.obj [("reasoningContent", .obj [])], .obj [("text", .str "hello")]]) :=
    recordings_read.2.2.2
  have hread : bedrockWire reasonedWhole =
      some { content := [{ reasoning := some (.obj []) }, { text := "hello" }], stopReason := "end_turn" } := by
    rw [hbytes, bedrockWire_whole (by simp [Json.OverElems, Json.Over, Json.OverFields, Json.OverField,
      Json.spelled_any]) (by decide)]
    rfl
  exact ⟨_, hread, rfl, .cons rfl (.cons ⟨rfl, rfl, rfl⟩ .nil)⟩

/-- The reasoning is refused in the complete response and dropped from the stream. -/
theorem reasoning_without_start_is_dropped :
    (Complete reasonedAnswer reasonedWhole ∧ Carries reasonedAnswer reasonedEvents) ∧
      (normalize "bedrock" reasonedWhole false).err = some .contentBlock ∧
      assembled "bedrock"
          (readSSE (translateBedrockStream (yielding reasonedEvents) ⟨[], false⟩ 100)).1 =
        some ("hello", ["stop"]) :=
  ⟨⟨reasonedAnswer_complete, reasonedAnswer_carried⟩, by decide +kernel, by decide +kernel⟩

end Switchboard.Proofs.Refusal
