import Switchboard.Proofs.Framing
import Switchboard.Proofs.Judgement
import Switchboard.Text.Members

namespace Switchboard.Proofs.Bedrock
open Text Gateway
open GoJson (Reads distinct member member?)
open Framing (readSSE_frames)
open Watch (assembled)

/-- The event of a message that the translator reads. -/
def wireOf (m : StreamMessage) : Option BedrockWire :=
  if m.payload = [] then some {} else bedrockWire m.payload

/-- A payload that can be read, in which no member is there twice. -/
structure WellFormed (m : StreamMessage) : Prop where
  read : (wireOf m).isSome = true
  once : (GoJson.scan m.payload).all distinct = true

instance (m : StreamMessage) : Decidable (WellFormed m) :=
  decidable_of_iff ((wireOf m).isSome = true ∧ (GoJson.scan m.payload).all distinct = true)
    ⟨fun h => ⟨h.1, h.2⟩, fun h => ⟨h.read, h.once⟩⟩

def reading (m : StreamMessage) : BedrockWire := (wireOf m).getD {}

/-- The payload names a tool or a reasoning block. -/
def names (m : StreamMessage) : Bool :=
  Strings.contains m.payload (ascii "\"toolUse\"") ||
    Strings.contains m.payload (ascii "\"reasoningContent\"")

/-- What the deltas of a sequence of events carry. -/
def texts (ms : List StreamMessage) : List String :=
  (ms.filter (fun m => m.kind = "contentBlockDelta")).map (fun m => (reading m).deltaText)

def reasons (ms : List StreamMessage) : List String :=
  (ms.filter (fun m => m.kind = "messageStop")).map (fun m => (reading m).stopReason)

def metadata (ms : List StreamMessage) : List StreamMessage :=
  ms.filter (fun m => m.kind = "metadata")

def spoken (ts : List String) : List String := ts.filter (fun t => t ≠ "")

def size (t : String) : Nat := (utf8 t.toList).length

def total (ts : List String) : Nat := (ts.map size).sum

def deltaJson (t : String) : Json := GoJson.map [("delta", GoJson.map [("text", .str t)])]

/-- What is remembered after some messages. -/
def summary (t : Translation) (ms : List StreamMessage) : Translation where
  stop := (reasons ms).getLastD t.stop
  usage := ((metadata ms).map StreamMessage.payload).getLastD t.usage
  out := t.out ++ (spoken (texts ms)).flatMap (fun s => sseFrame (deltaJson s))
  written := t.written + total (texts ms)

theorem WellFormed.wireOf {m : StreamMessage} (h : WellFormed m) : wireOf m = some (reading m) := by
  unfold reading
  cases hw : Bedrock.wireOf m with
  | none =>
    have hread := h.read
    rw [hw] at hread
    cases hread
  | some w => rfl

/-- The start of a block that the translator refuses. -/
def forbidden (m : StreamMessage) : Bool := decide (m.kind = "contentBlockStart") && names m

/-- One message: it is refused, goes over the limit, or is taken in. -/
theorem translateMessage_read (limit : Nat) (t : Translation) {m : StreamMessage} (h : WellFormed m) :
    translateMessage limit t m =
      if forbidden m = true ∨ (m.kind = "contentBlockDelta" ∧ (reading m).deltaText ≠ "" ∧
        limit < t.written + size (reading m).deltaText) then none
      else some (summary t [m]) := by
  have hw := h.wireOf
  unfold Bedrock.wireOf at hw
  unfold translateMessage
  rw [hw]
  dsimp only
  by_cases hstart : m.kind = "contentBlockStart"
  · have hnames : forbidden m = names m := by simp [forbidden, hstart]
    rw [if_pos hstart, hnames]
    unfold names
    simp [hstart, summary, texts, reasons, metadata, spoken, total]
  · have hnot : forbidden m = false := by simp [forbidden, hstart]
    rw [if_neg hstart, hnot]
    by_cases hdelta : m.kind = "contentBlockDelta"
    · rw [if_pos hdelta]
      by_cases hempty : (reading m).deltaText = ""
      · simp [hdelta, hempty, summary, texts, reasons, metadata, spoken, total, size, utf8]
      · simp [hdelta, hempty, summary, texts, reasons, metadata, spoken, total, size, deltaJson]
    · rw [if_neg hdelta]
      by_cases hstop : m.kind = "messageStop"
      · simp [hstop, summary, texts, reasons, metadata, spoken, total]
      · by_cases hmeta : m.kind = "metadata"
        · simp [hmeta, summary, texts, reasons, metadata, spoken, total]
        · simp [hdelta, hstop, hmeta, summary, texts, reasons, metadata, spoken, total]

theorem getLastD_append {α : Type} (xs ys : List α) (d : α) :
    (xs ++ ys).getLastD d = ys.getLastD (xs.getLastD d) := by
  cases ys with
  | nil => simp
  | cons y ys => simp [List.getLastD_eq_getLast?, List.getLast?_append, List.getLast?_cons]

theorem texts_append (xs ys : List StreamMessage) : texts (xs ++ ys) = texts xs ++ texts ys := by
  simp [texts, List.filter_append]

theorem reasons_append (xs ys : List StreamMessage) : reasons (xs ++ ys) = reasons xs ++ reasons ys := by
  simp [reasons, List.filter_append]

theorem total_append (xs ys : List String) : total (xs ++ ys) = total xs + total ys := by
  simp [total, List.sum_append]

theorem spoken_append (xs ys : List String) : spoken (xs ++ ys) = spoken xs ++ spoken ys := by
  simp [spoken, List.filter_append]

theorem summary_append (t : Translation) (xs ys : List StreamMessage) :
    summary (summary t xs) ys = summary t (xs ++ ys) := by
  have hmeta : metadata (xs ++ ys) = metadata xs ++ metadata ys := List.filter_append xs ys
  simp only [summary, reasons_append, texts_append, spoken_append, total_append, hmeta, getLastD_append,
    List.map_append, List.flatMap_append, List.append_assoc, Nat.add_assoc]

/-- What translating messages comes to: all are taken in, or it ends after some text with
one that is refused or goes over the limit. -/
inductive Translated (limit : Nat) (t : Translation) (ms : List StreamMessage) :
    Translation × Bool → Prop where
  | whole (hn : ∀ m ∈ ms, forbidden m = false) (hlimit : t.written + total (texts ms) ≤ limit) :
      Translated limit t ms (summary t ms, true)
  | broken (ts : List String) (t' : Translation) (hts : ts <+: spoken (texts ms))
      (hout : t'.out = t.out ++ ts.flatMap (fun s => sseFrame (deltaJson s)))
      (hwhy : (∃ m ∈ ms, forbidden m = true) ∨ limit < t.written + total (texts ms)) :
      Translated limit t ms (t', false)

theorem total_text {limit : Nat} {t : Translation} {m : StreamMessage} (ht : t.written ≤ limit)
    (h : ¬(m.kind = "contentBlockDelta" ∧ (reading m).deltaText ≠ "" ∧
      limit < t.written + size (reading m).deltaText)) :
    t.written + total (texts [m]) ≤ limit := by
  by_cases hdelta : m.kind = "contentBlockDelta"
  · have hsize : total (texts [m]) = size (reading m).deltaText := by simp [texts, total, hdelta]
    by_cases hempty : (reading m).deltaText = ""
    · have hzero : size (reading m).deltaText = 0 := by
        rw [hempty]
        rfl
      omega
    · have hle : ¬limit < t.written + size (reading m).deltaText := fun hlt => h ⟨hdelta, hempty, hlt⟩
      omega
  · have hzero : total (texts [m]) = 0 := by simp [texts, total, hdelta]
    omega

theorem translateMessages_spec {limit : Nat} {ms : List StreamMessage} {t : Translation}
    (h : ∀ m ∈ ms, WellFormed m) (ht : t.written ≤ limit) :
    Translated limit t ms (translateMessages limit t ms) := by
  induction ms generalizing t with
  | nil =>
    have hnil : summary t [] = t := by simp [summary, reasons, metadata, texts, spoken, total]
    have hwhole : Translated limit t [] (summary t [], true) := .whole (by simp) (by simpa [texts, total])
    rw [hnil] at hwhole
    exact hwhole
  | cons m ms ih =>
    have hsplit : texts (m :: ms) = texts [m] ++ texts ms := texts_append [m] ms
    have hread := translateMessage_read limit t (h m List.mem_cons_self)
    unfold translateMessages
    split at hread
    · rename_i hwhy
      rw [hread]
      refine .broken [] t List.nil_prefix (by simp) ?_
      rcases hwhy with hforbidden | ⟨hdelta, -, hlt⟩
      · exact .inl ⟨m, List.mem_cons_self, hforbidden⟩
      · have hsize : total (texts [m]) = size (reading m).deltaText := by simp [texts, total, hdelta]
        rw [hsplit, total_append]
        exact .inr (by omega)
    · rename_i hfits
      rw [not_or] at hfits
      rw [hread]
      dsimp only
      have hone := total_text ht hfits.2
      have hwritten : (summary t [m]).written = t.written + total (texts [m]) := rfl
      have hrest := ih (t := summary t [m]) (fun q hq => h q (List.mem_cons_of_mem _ hq))
        (by rw [hwritten]; exact hone)
      cases hrun : translateMessages limit (summary t [m]) ms with
      | mk t' ok =>
        rw [hrun] at hrest
        cases hrest with
        | whole hn hlimit =>
          rw [summary_append]
          refine .whole ?_ ?_
          · intro q hq
            rcases List.mem_cons.mp hq with rfl | hq
            · exact Bool.eq_false_iff.mpr hfits.1
            · exact hn q hq
          · rw [hsplit, total_append]
            omega
        | broken ts _ hts hout hwhy =>
          refine .broken (spoken (texts [m]) ++ ts) t' ?_ ?_ ?_
          · rw [hsplit, spoken_append]
            exact (List.prefix_append_right_inj _).mpr hts
          · rw [hout]
            simp [summary]
          · rcases hwhy with ⟨q, hq, hforbidden⟩ | hlt
            · exact .inl ⟨q, List.mem_cons_of_mem _ hq, hforbidden⟩
            · rw [hsplit, total_append]
              exact .inr (by omega)

theorem over_str (key s : String) : Json.OverField (fun _ => True) (key, .str s) :=
  ⟨Json.spelled_any key, Json.spelled_any s⟩

theorem over_deltaJson (t : String) : Json.Over (fun _ => True) (deltaJson t) :=
  ⟨⟨Json.spelled_any _, ⟨over_str _ t, trivial⟩⟩, trivial⟩

theorem bedrockWire_deltaJson (t : String) :
    bedrockWire (GoJson.marshal (deltaJson t)) = some { deltaText := t } := by
  have hdepth : (deltaJson t).depth = 2 := rfl
  unfold bedrockWire GoJson.unmarshal
  rw [GoJson.scan_marshal (over_deltaJson t) (by rw [hdepth]; decide)]
  rfl

/-- A frame of text is read as that text. -/
theorem normalize_deltaJson (t : String) :
    normalize "bedrock" (GoJson.marshal (deltaJson t)) true = ⟨{ text := t }, false, none⟩ := by
  unfold Gateway.normalize
  rw [if_pos rfl, if_pos rfl]
  unfold normalizeBedrockStream
  rw [bedrockWire_deltaJson]
  rfl

theorem reads_usage : Reads bedrockWireFields "usage" (fun w => (w.input, w.output))
    (GoJson.struct false bedrockUsageFields) := by
  constructor
  · simp [bedrockWireFields, GoJson.field]
  · simp +decide only [bedrockWireFields, GoJson.field, List.forall_mem_cons, Option.map_eq_some_iff,
      forall_true_left, false_imp_iff, implies_true, and_true, true_and, List.not_mem_nil]
    intro a v a' h
    obtain ⟨u, hu, rfl⟩ := h
    exact hu
  · simp +decide [bedrockWireFields, GoJson.field]

theorem final_usage (t : Translation) {u : Json}
    (h : GoJson.unmarshal (none : Option Json)
      (GoJson.struct false [GoJson.field "usage" id (fun _ v => v) GoJson.raw]) t.usage = some (some u)) :
    t.final = .obj [("stopReason", .str t.stop), ("usage", u)] := by
  unfold Translation.final
  rw [h]
  simp +decide [GoJson.map, sortKeys, KeyLe]

theorem final_none (t : Translation)
    (h : ∀ u, GoJson.unmarshal (none : Option Json)
      (GoJson.struct false [GoJson.field "usage" id (fun _ v => v) GoJson.raw]) t.usage ≠ some (some u)) :
    t.final = .obj [("stopReason", .str t.stop)] := by
  unfold Translation.final
  split
  · rename_i u hu
    exact absurd hu (h u)
  · rfl

/-- What the metadata says of its usage, read in two ways. -/
theorem metadata_usage {p : Bytes} {w : BedrockWire} {j : Json} (hj : GoJson.scan p = some j)
    (hw : bedrockWire p = some w) (hd : distinct j = true) :
    (∃ u, GoJson.unmarshal (none : Option Json)
        (GoJson.struct false [GoJson.field "usage" id (fun _ v => v) GoJson.raw]) p = some (some u) ∧
      GoJson.struct false bedrockUsageFields (0, 0) u = some (w.input, w.output) ∧
      Json.Over (fun _ => True) u ∧ u.depth + 1 ≤ GoJson.maxNestingDepth) ∨
    ((∀ u, GoJson.unmarshal (none : Option Json)
        (GoJson.struct false [GoJson.field "usage" id (fun _ v => v) GoJson.raw]) p ≠ some (some u)) ∧
      w.input = 0 ∧ w.output = 0) := by
  unfold bedrockWire GoJson.unmarshal at hw
  unfold GoJson.unmarshal
  rw [hj] at hw ⊢
  simp only [Option.bind_some] at hw ⊢
  cases j with
  | null =>
    obtain rfl := Option.some.inj hw
    exact .inr ⟨fun u h => (by cases h), rfl, rfl⟩
  | obj fs =>
    obtain ⟨hover, hdepth⟩ := GoJson.over_of_scan hj
    have hn : (fs.map (fun f => GoJson.foldName f.1)).Nodup :=
      of_decide_eq_true (Bool.and_eq_true_iff.mp hd).1
    have htaken := GoJson.members_taken reads_usage hn hw
    rw [GoJson.struct_raw hn]
    cases hm : member? "usage" fs with
    | none =>
      rw [hm] at htaken
      obtain ⟨hin, hout⟩ := Prod.mk.inj htaken
      exact .inr ⟨fun u h => (by cases h), hin, hout⟩
    | some u =>
      rw [hm] at htaken
      refine .inl ⟨u, rfl, htaken, GoJson.over_of_member? hm hover, ?_⟩
      have hle := GoJson.depth_of_member? hm
      have hobj : (Json.obj fs).depth = Json.depthFields fs + 1 := rfl
      omega
  | bool b => cases hw
  | num lit => cases hw
  | str s => cases hw
  | arr xs => cases hw

theorem bedrockWire_stop (stop : String) {u : Json} {v : Int × Int}
    (hu : GoJson.struct false bedrockUsageFields (0, 0) u = some v)
    (hover : Json.Over (fun _ => True) u) (hdepth : u.depth + 1 ≤ GoJson.maxNestingDepth) :
    bedrockWire (GoJson.marshal (.obj [("stopReason", .str stop), ("usage", u)])) =
      some { stopReason := stop, input := v.1, output := v.2 } := by
  have hall : Json.Over (fun _ => True) (.obj [("stopReason", .str stop), ("usage", u)]) :=
    ⟨over_str _ stop, ⟨Json.spelled_any _, hover⟩, trivial⟩
  have hlevel : (Json.obj [("stopReason", .str stop), ("usage", u)]).depth =
      max 0 (max u.depth 0) + 1 := rfl
  unfold bedrockWire GoJson.unmarshal
  rw [GoJson.scan_marshal hall (by omega)]
  have hfirst : GoJson.struct false bedrockWireFields {} (.obj [("stopReason", .str stop), ("usage", u)]) =
      GoJson.members false bedrockWireFields { stopReason := stop } [("usage", u)] := rfl
  rw [Option.bind_some, hfirst]
  have hfind : GoJson.findField bedrockWireFields "usage" =
      some (GoJson.field "usage" (fun w : BedrockWire => (w.input, w.output))
        (fun w v => { w with input := v.1, output := v.2 }) (GoJson.struct false bedrockUsageFields)) :=
    rfl
  simp only [GoJson.members, hfind, GoJson.field, hu, Option.map_some]

theorem bedrockWire_bare (stop : String) :
    bedrockWire (GoJson.marshal (.obj [("stopReason", .str stop)])) = some { stopReason := stop } := by
  have hall : Json.Over (fun _ => True) (.obj [("stopReason", .str stop)]) :=
    ⟨over_str _ stop, trivial⟩
  have hlevel : (Json.obj [("stopReason", .str stop)]).depth = 1 := rfl
  unfold bedrockWire GoJson.unmarshal
  rw [GoJson.scan_marshal hall (by rw [hlevel]; decide)]
  rfl

/-- The usage that the last metadata states. -/
def lastUsage (ms : List StreamMessage) : Int × Int :=
  match (metadata ms).getLast? with
  | some m => ((reading m).input, (reading m).output)
  | none => (0, 0)

theorem unmarshal_nil (u : Json) :
    GoJson.unmarshal (none : Option Json)
      (GoJson.struct false [GoJson.field "usage" id (fun _ v => v) GoJson.raw]) [] ≠ some (some u) := by
  intro h
  cases h

/-- The trailing frame, as it is read. -/
theorem bedrockWire_final {ms : List StreamMessage} (h : ∀ m ∈ ms, WellFormed m) :
    bedrockWire (GoJson.marshal (summary {} ms).final) =
      some { stopReason := (summary {} ms).stop
             input := (lastUsage ms).1
             output := (lastUsage ms).2 } ∧
    Json.Over (fun _ => True) (summary {} ms).final := by
  have hbare : (summary {} ms).usage = [] → lastUsage ms = (0, 0) →
      bedrockWire (GoJson.marshal (summary {} ms).final) =
        some { stopReason := (summary {} ms).stop
               input := (lastUsage ms).1
               output := (lastUsage ms).2 } ∧
      Json.Over (fun _ => True) (summary {} ms).final := by
    intro husage hlast
    rw [final_none _ (by rw [husage]; exact unmarshal_nil), bedrockWire_bare, hlast]
    exact ⟨rfl, over_str _ _, trivial⟩
  cases hm : (metadata ms).getLast? with
  | none =>
    have hnil : metadata ms = [] := List.getLast?_eq_none_iff.mp hm
    refine hbare ?_ ?_
    · simp [summary, hnil]
    · simp [lastUsage, hm]
  | some m =>
    have hmem : m ∈ ms := List.mem_of_mem_filter (List.mem_of_getLast? hm)
    have hwf := h m hmem
    have husage : (summary {} ms).usage = m.payload := by
      simp [summary, List.getLastD_eq_getLast?, hm]
    have hlast : lastUsage ms = ((reading m).input, (reading m).output) := by
      simp [lastUsage, hm]
    have hread := hwf.wireOf
    unfold Bedrock.wireOf at hread
    split at hread
    · rename_i hempty
      refine hbare (husage.trans hempty) ?_
      rw [hlast, ← Option.some.inj hread]
    · have hscan : ∃ j, GoJson.scan m.payload = some j := by
        cases hj : GoJson.scan m.payload with
        | none =>
          unfold bedrockWire GoJson.unmarshal at hread
          rw [hj] at hread
          cases hread
        | some j => exact ⟨j, rfl⟩
      obtain ⟨j, hj⟩ := hscan
      have honce : distinct j = true := by
        have hall := hwf.once
        rwa [hj] at hall
      rcases metadata_usage hj hread honce with ⟨u, hraw, hu, hover, hdepth⟩ | ⟨hnone, hin, hout⟩
      · rw [← husage] at hraw
        rw [final_usage _ hraw, bedrockWire_stop _ hu hover hdepth, hlast]
        exact ⟨rfl, over_str _ _, ⟨Json.spelled_any _, hover⟩, trivial⟩
      · rw [← husage] at hnone
        rw [final_none _ hnone, bedrockWire_bare, hlast, hin, hout]
        exact ⟨rfl, over_str _ _, trivial⟩

/-- The frames that the messages are translated into: their texts, and the trailer if there
is a reason to stop. -/
def frames (ms : List StreamMessage) : List Json :=
  (spoken (texts ms)).map deltaJson ++ if reasons ms = [] then [] else [(summary {} ms).final]

theorem marshal_lt {j : Json} (h : (sseFrame j).length < 1000000) :
    (GoJson.marshal j).length < 1000000 := by
  simp only [sseFrame, List.length_append] at h
  omega

theorem deltas_fit {ms : List StreamMessage} (h : ∀ j ∈ frames ms, (sseFrame j).length < 1000000)
    {ts : List String} (hts : ∀ t ∈ ts, t ∈ spoken (texts ms)) :
    ∀ j ∈ ts.map deltaJson, Json.Over (fun _ => True) j ∧ (GoJson.marshal j).length < 1000000 := by
  intro j hj
  obtain ⟨t, ht, rfl⟩ := List.mem_map.mp hj
  refine ⟨over_deltaJson t, marshal_lt (h _ ?_)⟩
  exact List.mem_append_left _ (List.mem_map.mpr ⟨t, hts t ht, rfl⟩)

/-- What the rest of the gateway reads of a stream: the texts and the trailer, or some of the
texts and an error. -/
inductive Piped (limit : Nat) (ms : List StreamMessage) : List Bytes × Option StreamError → Prop where
  | whole (hn : ∀ m ∈ ms, forbidden m = false) (hlimit : total (texts ms) ≤ limit)
      (hstop : (summary {} ms).stop ≠ "") :
      Piped limit ms ((spoken (texts ms)).map (fun s => GoJson.marshal (deltaJson s)) ++
        [GoJson.marshal (summary {} ms).final], none)
  | broken (ts : List String)
      (hwhy : (∃ m ∈ ms, forbidden m = true) ∨ limit < total (texts ms) ∨ (summary {} ms).stop = "") :
      Piped limit ms (ts.map (fun s => GoJson.marshal (deltaJson s)), some .read)

theorem readSSE_texts {ms : List StreamMessage} (h : ∀ j ∈ frames ms, (sseFrame j).length < 1000000)
    {ts : List String} (hts : ∀ t ∈ ts, t ∈ spoken (texts ms)) :
    readSSE ⟨ts.flatMap (fun s => sseFrame (deltaJson s)), true⟩ =
      (ts.map (fun s => GoJson.marshal (deltaJson s)), some .read) := by
  have hread := readSSE_frames true (deltas_fit h hts)
  rwa [List.flatMap_map, List.map_map] at hread

theorem readSSE_whole {ms : List StreamMessage} (hwf : ∀ m ∈ ms, WellFormed m)
    (h : ∀ j ∈ frames ms, (sseFrame j).length < 1000000) (hstop : (summary {} ms).stop ≠ "") :
    readSSE ⟨(summary {} ms).out ++ sseFrame (summary {} ms).final, false⟩ =
      ((spoken (texts ms)).map (fun s => GoJson.marshal (deltaJson s)) ++
        [GoJson.marshal (summary {} ms).final], none) := by
  obtain ⟨-, hover⟩ := bedrockWire_final hwf
  have hne : reasons ms ≠ [] := by
    intro hnil
    exact hstop (by simp [summary, hnil])
  have hfit : ∀ j ∈ (spoken (texts ms)).map deltaJson ++ [(summary {} ms).final],
      Json.Over (fun _ => True) j ∧ (GoJson.marshal j).length < 1000000 := by
    intro j hj
    rcases List.mem_append.mp hj with hj | hj
    · exact deltas_fit h (fun t ht => ht) j hj
    · rw [List.mem_singleton.mp hj]
      refine ⟨hover, marshal_lt (h _ (List.mem_append_right _ ?_))⟩
      rw [if_neg hne]
      exact List.mem_singleton_self _
  have hread := readSSE_frames false hfit
  have hout : (summary {} ms).out = (spoken (texts ms)).flatMap (fun s => sseFrame (deltaJson s)) := by
    simp [summary]
  rw [hout]
  simpa [List.flatMap_append, List.flatMap_map, Function.comp_def] using hread

/-- The decoded messages, translated and read again. -/
theorem readSSE_translated {lib : Lib} {body : Body} {limit : Nat} {ms : List StreamMessage}
    (hms : lib.eventStream limit body = (ms, true)) (hwf : ∀ m ∈ ms, WellFormed m)
    (hframes : ∀ j ∈ frames ms, (sseFrame j).length < 1000000) :
    Piped limit ms (readSSE (translateBedrockStream lib body limit)) := by
  have hspec : Translated limit {} ms (translateMessages limit {} ms) :=
    translateMessages_spec hwf (Nat.zero_le limit)
  unfold translateBedrockStream
  rw [hms]
  dsimp only
  cases hrun : translateMessages limit {} ms with
  | mk t ok =>
    rw [hrun] at hspec
    cases hspec with
    | whole hn hlimit =>
      have hsmall : total (texts ms) ≤ limit := by simpa using hlimit
      dsimp only
      rw [if_neg (by simp)]
      by_cases hstop : (summary {} ms).stop = ""
      · have hout : (summary {} ms).out =
            (spoken (texts ms)).flatMap (fun s => sseFrame (deltaJson s)) := by
          simp [summary]
        rw [if_pos hstop, hout, readSSE_texts hframes (fun t ht => ht)]
        exact .broken _ (.inr (.inr hstop))
      · rw [if_neg hstop, readSSE_whole hwf hframes hstop]
        exact .whole hn hsmall hstop
    | broken ts _ hts hout hwhy =>
      dsimp only
      rw [hout, List.nil_append, readSSE_texts hframes (fun t ht => hts.subset ht)]
      refine .broken ts ?_
      rcases hwhy with hforbidden | hlt
      · exact .inl hforbidden
      · exact .inr (.inl (by simpa using hlt))

theorem bedrockFinish_nil {f : String} : bedrockFinish "" ≠ .ok f := by
  intro h
  cases h

theorem normalize_final {ms : List StreamMessage} {finish : String} (h : ∀ m ∈ ms, WellFormed m)
    (hstop : (summary {} ms).stop ≠ "") (hfinish : bedrockFinish (summary {} ms).stop = .ok finish) :
    normalize "bedrock" (GoJson.marshal (summary {} ms).final) true =
      ⟨{ finish := finish, input := (lastUsage ms).1, output := (lastUsage ms).2 }, true, none⟩ := by
  unfold Gateway.normalize
  rw [if_pos rfl, if_pos rfl]
  unfold normalizeBedrockStream
  rw [(bedrockWire_final h).1]
  dsimp only
  rw [if_neg hstop, hfinish]

/-- Wherever the reasons to stop and the metadata stand among the deltas, the stream is read
as its texts in order and one last frame with the last reason and the last usage; without
a reason, or with too much text, it is read as an error and nothing ends it. -/
theorem bedrock_trailer_comes_last (lib : Lib) (body : Body) (limit : Nat) (ms : List StreamMessage)
    (hms : lib.eventStream limit body = (ms, true)) (hwf : ∀ m ∈ ms, WellFormed m)
    (hstarts : ∀ m ∈ ms, m.kind = "contentBlockStart" → names m = false)
    (hreasons : ∀ r ∈ reasons ms, ∃ f, bedrockFinish r = .ok f)
    (hframes : ∀ j ∈ frames ms, (sseFrame j).length < 1000000) :
    (reasons ms ≠ [] → total (texts ms) ≤ limit →
      ∃ events finish, readSSE (translateBedrockStream lib body limit) = (events, none) ∧
        bedrockFinish ((reasons ms).getLastD "") = .ok finish ∧
        events.map (fun p => normalize "bedrock" p true) =
          (spoken (texts ms)).map (fun t => ⟨{ text := t }, false, none⟩) ++
            [⟨{ finish := finish, input := (lastUsage ms).1, output := (lastUsage ms).2 }, true, none⟩]) ∧
    (reasons ms = [] ∨ limit < total (texts ms) →
      (readSSE (translateBedrockStream lib body limit)).2 ≠ none ∧
        ∀ p ∈ (readSSE (translateBedrockStream lib body limit)).1,
          (normalize "bedrock" p true).done = false) := by
  have hpiped := readSSE_translated hms hwf hframes
  have hnone : ∀ m ∈ ms, forbidden m = false := by
    intro m hm
    by_cases hstart : m.kind = "contentBlockStart"
    · simp [forbidden, hstarts m hm hstart]
    · simp [forbidden, hstart]
  have hstop : (summary {} ms).stop = (reasons ms).getLastD "" := rfl
  refine ⟨fun hne hlimit => ?_, fun hend => ?_⟩
  · have hlast : (reasons ms).getLastD "" ∈ reasons ms := by
      rw [List.getLastD_eq_getLast?, List.getLast?_eq_some_getLast hne]
      exact List.getLast_mem hne
    obtain ⟨finish, hfinish⟩ := hreasons _ hlast
    have hstopped : (summary {} ms).stop ≠ "" := by
      intro hnil
      rw [← hstop, hnil] at hfinish
      exact bedrockFinish_nil hfinish
    cases hrun : readSSE (translateBedrockStream lib body limit) with
    | mk events err =>
      rw [hrun] at hpiped
      cases hpiped with
      | whole =>
        refine ⟨_, finish, rfl, hfinish, ?_⟩
        rw [List.map_append, List.map_singleton, List.map_map, normalize_final hwf hstopped hfinish]
        simp only [Function.comp_def, normalize_deltaJson]
      | broken ts hwhy =>
        rcases hwhy with ⟨m, hm, hforbidden⟩ | hlt | hnil
        · rw [hnone m hm] at hforbidden
          cases hforbidden
        · omega
        · exact absurd hnil hstopped
  · cases hrun : readSSE (translateBedrockStream lib body limit) with
    | mk events err =>
      rw [hrun] at hpiped
      cases hpiped with
      | whole _ hlimit hstopped =>
        rcases hend with hnil | hlt
        · exact absurd (by rw [hstop, hnil]; rfl) hstopped
        · omega
      | broken ts =>
        refine ⟨by simp, ?_⟩
        intro p hp
        obtain ⟨t, -, rfl⟩ := List.mem_map.mp hp
        rw [normalize_deltaJson]

def deltaMessage (text : String) : StreamMessage :=
  ⟨"contentBlockDelta", ascii ("\x7b\"delta\":\x7b\"text\":\"" ++ text ++ "\"\x7d\x7d")⟩

def stopMessage : StreamMessage := ⟨"messageStop", ascii "\x7b\"stopReason\":\"end_turn\"\x7d"⟩

/-- The metadata first, and a delta after the reason to stop. -/
def shuffled : List StreamMessage :=
  [⟨"metadata", ascii "\x7b\"usage\":\x7b\"inputTokens\":3,\"outputTokens\":2\x7d\x7d"⟩,
   deltaMessage "he", stopMessage, deltaMessage "llo"]

/-- A decoder that yields these messages, whatever it is given. -/
def yielding (ms : List StreamMessage) : Lib :=
  { NoReplay.plainLib with eventStream := fun _ _ => (ms, true) }

theorem bedrock_trailer_comes_last_shuffled :
    (texts shuffled = ["he", "llo"] ∧ lastUsage shuffled = (3, 2)) ∧
      ∃ events finish,
        readSSE (translateBedrockStream (yielding shuffled) ⟨[], false⟩ 100) = (events, none) ∧
        bedrockFinish ((reasons shuffled).getLastD "") = .ok finish ∧
        events.map (fun p => normalize "bedrock" p true) =
          (spoken (texts shuffled)).map (fun t => ⟨{ text := t }, false, none⟩) ++
            [⟨{ finish := finish, input := (lastUsage shuffled).1,
                output := (lastUsage shuffled).2 }, true, none⟩] := by
  have hall : (texts shuffled = ["he", "llo"] ∧ lastUsage shuffled = (3, 2)) ∧
      reasons shuffled = ["end_turn"] ∧ (∀ m ∈ shuffled, WellFormed m) ∧
      (∀ m ∈ shuffled, m.kind = "contentBlockStart" → names m = false) ∧
      ∀ j ∈ frames shuffled, (sseFrame j).length < 1000000 := by
    decide +kernel
  obtain ⟨htexts, hreasons, hwf, hstarts, hframes⟩ := hall
  refine ⟨htexts, (bedrock_trailer_comes_last (yielding shuffled) ⟨[], false⟩ 100 shuffled rfl hwf
    hstarts ?_ hframes).1 ?_ ?_⟩
  · rw [hreasons]
    intro r hr
    rw [List.mem_singleton.mp hr]
    exact ⟨"stop", rfl⟩
  · rw [hreasons]
    simp
  · rw [htexts.1]
    decide

end Switchboard.Proofs.Bedrock
