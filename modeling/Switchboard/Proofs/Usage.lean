import Switchboard.Gateway.Relay
import Switchboard.Proofs.Verify

namespace Switchboard.Proofs.Usage
open Text Gateway Verify
open GoJson (inInt64)
open Effect (Prog)

theorem struct_invariant {I : α → Prop} {strict : Bool} {fields : List (GoJson.Field α)}
    (hf : ∀ f ∈ fields, ∀ a j a', I a → f.decode a j = some a' → I a') {a a' : α} {j : Json}
    (ha : I a) (h : GoJson.struct strict fields a j = some a') : I a' := by
  unfold GoJson.struct at h
  split at h
  · cases h
    exact ha
  · exact members_invariant hf ha h
  · cases h

theorem unmarshal_invariant {I : α → Prop} {strict : Bool} {fields : List (GoJson.Field α)}
    (hf : ∀ f ∈ fields, ∀ a j a', I a → f.decode a j = some a' → I a') {zero a : α} {b : Bytes}
    (hz : I zero) (h : GoJson.unmarshal zero (GoJson.struct strict fields) b = some a) : I a := by
  obtain ⟨j, -, hj⟩ := Option.bind_eq_some_iff.mp h
  exact struct_invariant hf hz hj

/-- Token counts that are 64-bit integers. -/
structure Fits (u : TokenUsage) : Prop where
  input : inInt64 u.input = true
  output : inInt64 u.output = true
  reasoning : inInt64 u.reasoning = true
  cacheRead : inInt64 u.cacheRead = true
  cacheWrite : inInt64 u.cacheWrite = true

theorem inInt64_zero : inInt64 0 = true := rfl

theorem fits_none : Fits {} :=
  ⟨inInt64_zero, inInt64_zero, inInt64_zero, inInt64_zero, inInt64_zero⟩

/-- The counts of a response as its provider states them. -/
structure Counted (u : Usage) : Prop where
  input : inInt64 u.input = true
  output : inInt64 u.output = true
  cacheCreation : inInt64 u.cacheCreation = true
  cacheRead : inInt64 u.cacheRead = true
  prompt : inInt64 u.prompt = true
  completion : inInt64 u.completion = true
  reasoning : inInt64 u.reasoning = true

theorem usageFields_counted (f : GoJson.Field Usage) (hf : f ∈ usageFields) (a : Usage) (j : Json)
    (a' : Usage) (ha : Counted a) (h : f.decode a j = some a') : Counted a' := by
  simp only [usageFields, List.mem_cons, List.not_mem_nil, or_false] at hf
  rcases hf with rfl | rfl | rfl | rfl | rfl | rfl | rfl
  · obtain ⟨n, hn, rfl⟩ := field_decode h
    exact { ha with input := int64_sized ha.input hn }
  · obtain ⟨n, hn, rfl⟩ := field_decode h
    exact { ha with output := int64_sized ha.output hn }
  · obtain ⟨n, hn, rfl⟩ := field_decode h
    exact { ha with cacheCreation := int64_sized ha.cacheCreation hn }
  · obtain ⟨n, hn, rfl⟩ := field_decode h
    exact { ha with cacheRead := int64_sized ha.cacheRead hn }
  · obtain ⟨n, hn, rfl⟩ := field_decode h
    exact { ha with prompt := int64_sized ha.prompt hn }
  · obtain ⟨n, hn, rfl⟩ := field_decode h
    exact { ha with completion := int64_sized ha.completion hn }
  · obtain ⟨n, hn, rfl⟩ := field_decode h
    refine { ha with reasoning := struct_invariant (I := fun n => inInt64 n = true) ?_ ha.reasoning hn }
    intro f hf m j m' hm hd
    obtain rfl := List.mem_singleton.mp hf
    obtain ⟨n, hn, rfl⟩ := field_decode hd
    exact int64_sized hm hn

structure Metered (u : UsageMetadata) : Prop where
  input : inInt64 u.input = true
  thoughts : inInt64 u.thoughts = true

theorem usageMetadataFields_metered (f : GoJson.Field UsageMetadata) (hf : f ∈ usageMetadataFields)
    (a : UsageMetadata) (j : Json) (a' : UsageMetadata) (ha : Metered a)
    (h : f.decode a j = some a') : Metered a' := by
  simp only [usageMetadataFields, List.mem_cons, List.not_mem_nil, or_false] at hf
  rcases hf with rfl | rfl | rfl | rfl
  · obtain ⟨n, hn, rfl⟩ := field_decode h
    exact { ha with input := int64_sized ha.input hn }
  · obtain ⟨n, -, rfl⟩ := field_decode h
    exact ⟨ha.input, ha.thoughts⟩
  · obtain ⟨n, hn, rfl⟩ := field_decode h
    exact { ha with thoughts := int64_sized ha.thoughts hn }
  · obtain ⟨n, -, rfl⟩ := field_decode h
    exact ⟨ha.input, ha.thoughts⟩

/-- Both counts of a response or frame. -/
def WireCounted (w : Wire) : Prop := Counted w.usage ∧ Metered w.usageMetadata

theorem wireFields_counted (f : GoJson.Field Wire) (hf : f ∈ wireFields) (w : Wire) (j : Json)
    (w' : Wire) (hw : WireCounted w) (h : f.decode w j = some w') : WireCounted w' := by
  simp only [wireFields, List.mem_cons, List.not_mem_nil, or_false] at hf
  rcases hf with rfl | rfl | rfl | rfl | rfl | rfl | rfl | rfl | rfl | rfl | rfl
  case inr.inr.inr.inr.inr.inr.inr.inl =>
    obtain ⟨u, hu, rfl⟩ := field_decode h
    exact ⟨struct_invariant usageFields_counted hw.1 hu, hw.2⟩
  case inr.inr.inr.inr.inr.inr.inr.inr.inr.inr =>
    obtain ⟨u, hu, rfl⟩ := field_decode h
    exact ⟨hw.1, struct_invariant usageMetadataFields_metered hw.2 hu⟩
  all_goals
    obtain ⟨v, -, rfl⟩ := field_decode h
    exact hw

theorem bedrockWireFields_counted (f : GoJson.Field BedrockWire) (hf : f ∈ bedrockWireFields)
    (w : BedrockWire) (j : Json) (w' : BedrockWire)
    (hw : inInt64 w.input = true ∧ inInt64 w.output = true) (h : f.decode w j = some w') :
    inInt64 w'.input = true ∧ inInt64 w'.output = true := by
  simp only [bedrockWireFields, List.mem_cons, List.not_mem_nil, or_false] at hf
  rcases hf with rfl | rfl | rfl | rfl | rfl
  case inr.inr.inl =>
    obtain ⟨u, hu, rfl⟩ := field_decode h
    refine struct_invariant (I := fun u : Int × Int => inInt64 u.1 = true ∧ inInt64 u.2 = true) ?_ hw hu
    intro f hf u j u' hu hd
    simp only [bedrockUsageFields, List.mem_cons, List.not_mem_nil, or_false] at hf
    rcases hf with rfl | rfl
    · obtain ⟨n, hn, rfl⟩ := field_decode hd
      exact ⟨int64_sized hu.1 hn, hu.2⟩
    · obtain ⟨n, hn, rfl⟩ := field_decode hd
      exact ⟨hu.1, int64_sized hu.2 hn⟩
  all_goals
    obtain ⟨v, -, rfl⟩ := field_decode h
    exact hw

/-- What reading a response does to its text leaves the counts alone. -/
theorem openaiChoice_usage (stream : Bool) (n : Normalized) (c : Choice) :
    usageOf (openaiChoice stream n c).n = usageOf n := by
  unfold openaiChoice
  generalize (if stream then c.delta else c.message) = t
  dsimp only
  split
  · rfl
  split
  · rfl
  split
  · rfl
  · split
    · rfl
    · rfl

theorem anthropicBlocks_usage {n n' : Normalized} {bs : List Block} {e : Option WireError}
    (h : anthropicBlocks n bs = (n', e)) : usageOf n' = usageOf n := by
  induction bs generalizing n with
  | nil =>
    cases h
    rfl
  | cons b bs ih =>
    unfold anthropicBlocks at h
    split at h
    · cases h
      rfl
    · have husage := ih h
      exact husage

theorem anthropicFrame_usage (n : Normalized) (w : Wire) :
    usageOf (anthropicFrame n w).n = usageOf n := by
  unfold anthropicFrame
  repeat' split
  all_goals rfl

theorem geminiParts_usage {n n' : Normalized} {ps : List Part} {e : Option WireError}
    (h : geminiParts n ps = (n', e)) : usageOf n' = usageOf n := by
  induction ps generalizing n with
  | nil =>
    cases h
    rfl
  | cons p ps ih =>
    unfold geminiParts at h
    split at h
    · cases h
      rfl
    · rw [ih h]
      split
      · rfl
      · rfl

theorem geminiCandidate_usage (n : Normalized) (c : Candidate) :
    usageOf (geminiCandidate n c).n = usageOf n := by
  unfold geminiCandidate
  split
  · rfl
  · split
    · rename_i heq
      exact geminiParts_usage heq
    · rename_i heq
      have husage := geminiParts_usage heq
      split
      · exact husage
      · split
        · exact husage
        · exact husage

theorem normalizeWire_fits {provider : String} {w : Wire} {stream : Bool} (h : WireCounted w) :
    Fits (usageOf (normalizeWire provider w stream).n) := by
  obtain ⟨hc, hm⟩ := h
  unfold normalizeWire
  split
  · have hfits : Fits ⟨w.usage.prompt, w.usage.completion, w.usage.reasoning, 0, 0⟩ :=
      ⟨hc.prompt, hc.completion, hc.reasoning, inInt64_zero, inInt64_zero⟩
    unfold normalizeOpenAI
    dsimp only
    split
    · exact hfits
    · rw [openaiChoice_usage]
      exact hfits
    · exact hfits
  split
  · have hfits : Fits ⟨wrap64 (wrap64 (w.usage.input + w.usage.cacheCreation) + w.usage.cacheRead),
        w.usage.output, 0, w.usage.cacheRead, w.usage.cacheCreation⟩ :=
      ⟨inInt64_wrap64 _, hc.output, inInt64_zero, hc.cacheRead, hc.cacheCreation⟩
    unfold normalizeAnthropic
    dsimp only
    split
    · rw [anthropicFrame_usage]
      exact hfits
    · split
      · rename_i heq
        have husage := anthropicBlocks_usage heq
        exact husage ▸ hfits
      · rename_i heq
        have husage := anthropicBlocks_usage heq
        split
        · exact husage ▸ hfits
        · exact husage ▸ hfits
  split
  · have hfits : Fits (usageOf (geminiUsage w.usageMetadata)) :=
      ⟨hm.input, inInt64_wrap64 _, hm.thoughts, inInt64_zero, inInt64_zero⟩
    unfold normalizeGemini
    dsimp only
    split
    · exact hfits
    · split
      · exact hfits
      · rw [geminiCandidate_usage]
        exact hfits
      · exact hfits
  · exact fits_none

theorem bedrockBlocks_usage {n n' : Normalized} {bs : List BedrockBlock} {e : Option WireError}
    (h : bedrockBlocks n bs = (n', e)) : usageOf n' = usageOf n := by
  induction bs generalizing n with
  | nil =>
    cases h
    rfl
  | cons b bs ih =>
    unfold bedrockBlocks at h
    split at h
    · cases h
      rfl
    · have husage := ih h
      exact husage

theorem bedrockWire_counted {b : Bytes} {w : BedrockWire} (h : bedrockWire b = some w) :
    inInt64 w.input = true ∧ inInt64 w.output = true :=
  unmarshal_invariant (I := fun w : BedrockWire => inInt64 w.input = true ∧ inInt64 w.output = true)
    bedrockWireFields_counted ⟨inInt64_zero, inInt64_zero⟩ h

theorem normalizeBedrockStream_fits (b : Bytes) : Fits (usageOf (normalizeBedrockStream b).n) := by
  unfold normalizeBedrockStream
  split
  · exact fits_none
  · rename_i w hw
    obtain ⟨hi, ho⟩ := bedrockWire_counted hw
    have hfits : Fits ⟨w.input, w.output, 0, 0, 0⟩ := ⟨hi, ho, inInt64_zero, inInt64_zero, inInt64_zero⟩
    dsimp only
    split
    · exact hfits
    · split
      · exact hfits
      · exact hfits

theorem normalizeBedrock_fits (b : Bytes) : Fits (usageOf (normalizeBedrock b).n) := by
  unfold normalizeBedrock
  split
  · exact fits_none
  · rename_i w hw
    obtain ⟨hi, ho⟩ := bedrockWire_counted hw
    split
    · rename_i n e heq
      have husage := bedrockBlocks_usage heq
      exact husage ▸ fits_none
    · rename_i n heq
      have husage := bedrockBlocks_usage heq
      have hnone : Fits (usageOf n) := husage ▸ fits_none
      split
      · exact hnone
      · exact ⟨hi, ho, hnone.reasoning, hnone.cacheRead, hnone.cacheWrite⟩

/-- Whatever a provider answers, the counts read from it are 64-bit integers. -/
theorem normalize_fits (provider : String) (b : Bytes) (stream : Bool) :
    Fits (usageOf (normalize provider b stream).n) := by
  unfold Gateway.normalize
  split
  · split
    · exact normalizeBedrockStream_fits b
    · exact normalizeBedrock_fits b
  · split
    · exact fits_none
    · rename_i w hw
      have hcounted : WireCounted w := by
        refine unmarshal_invariant wireFields_counted ?_ hw
        exact ⟨⟨inInt64_zero, inInt64_zero, inInt64_zero, inInt64_zero, inInt64_zero, inInt64_zero, inInt64_zero⟩,
          ⟨inInt64_zero, inInt64_zero⟩⟩
      split
      · exact fits_none
      · have hfits : Fits (usageOf (normalizeWire provider w stream).n) := normalizeWire_fits hcounted
        dsimp only
        split
        · exact hfits
        · exact hfits

theorem noteFrame_fits {st : StreamState} {n : Normalized} (hst : Fits st.out.usage)
    (hn : Fits (usageOf n)) : Fits (st.noteFrame n).out.usage := by
  unfold StreamState.noteFrame
  dsimp only
  split
  · exact hn
  · exact hst

theorem emitFrame_fits {k : Inference} {route : Route} {st : StreamState} {n : Normalized}
    {done : Bool} (h : Fits st.out.usage) :
    (emitFrame k route st n done).Returns (fun r => Fits r.1.out.usage) := by
  unfold emitFrame
  split
  · dsimp only
    split
    · exact h
    · refine Prog.Returns.bind (Prog.returns_any _) (fun sent _ => ?_)
      split
      · exact h
      · exact h
  · exact h

theorem onEvent_fits {k : Inference} {route : Route} {st : StreamState} {b : Bytes}
    (h : Fits st.out.usage) : (onEvent k route st b).Returns (fun r => Fits r.1.out.usage) := by
  have hframe : Fits (st.noteFrame (normalize route.provider b true).n).out.usage :=
    noteFrame_fits h (normalize_fits _ _ _)
  unfold onEvent
  split
  · split
    · exact h
    · exact h
  · dsimp only
    split
    · exact h
    · refine Prog.Returns.bind (Prog.returns_any _) (fun _ _ => ?_)
      split
      · exact hframe
      · exact emitFrame_fits hframe

theorem onEvents_fits {k : Inference} {route : Route} {st : StreamState} {bs : List Bytes}
    (h : Fits st.out.usage) : (onEvents k route st bs).Returns (fun r => Fits r.1.out.usage) := by
  induction bs generalizing st with
  | nil => exact h
  | cons b bs ih =>
    refine Prog.Returns.bind (onEvent_fits h) (fun r hr => ?_)
    obtain ⟨st, stop⟩ := r
    cases stop with
    | some s => exact hr
    | none => exact ih hr

theorem closeStream_fits {st : StreamState} (h : Fits st.out.usage) :
    (closeStream st).Returns (fun r => Fits r.1.usage) := by
  have hdone : (sendDone st).Returns (fun r => Fits r.1.usage) := by
    refine Prog.Returns.bind (Prog.returns_any _) (fun sent _ => ?_)
    split
    · exact h
    · exact h
  unfold closeStream
  split
  · exact hdone
  · split
    · exact h
    · refine Prog.Returns.bind (Prog.returns_any _) (fun sent _ => ?_)
      split
      · exact hdone
      · exact h

/-- So are those of a stream, wherever it ends. -/
theorem stream_fits (k : Inference) (route : Route) (contentType : String) (body : Body) :
    (stream k route contentType body).Returns (fun r => Fits r.1.usage) := by
  unfold stream
  split
  · exact Prog.Returns.bind (Prog.returns_any _) (fun _ _ => fits_none)
  · unfold relay
    refine Prog.Returns.bind (Prog.returns_any _) (fun _ _ => Prog.Returns.bind (Prog.returns_any _)
      (fun _ _ => Prog.Returns.bind (Prog.returns_any _) (fun _ _ => ?_)))
    refine Prog.Returns.bind (onEvents_fits fits_none) (fun r hr => ?_)
    obtain ⟨st, stop⟩ := r
    cases stop with
    | none => exact Prog.Returns.bind (Prog.returns_any _) (fun _ _ => hr)
    | some stop =>
      cases stop with
      | complete => exact closeStream_fits hr
      | error e => exact Prog.Returns.bind (Prog.returns_any _) (fun _ _ => hr)

end Switchboard.Proofs.Usage
