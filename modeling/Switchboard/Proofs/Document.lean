import Switchboard.Controlplane.Exchange
import Switchboard.Proofs.Signer
import Switchboard.Text.Members

namespace Switchboard.Proofs.Document
open Text Gateway Controlplane
open GoJson (Fits)

theorem setItem_new {β : Type} {k : String} {v : β} {d : List (String × β)} (h : k ∉ d.map Prod.fst) :
    setItem k v d = d ++ [(k, v)] := by
  induction d with
  | nil => rfl
  | cons f d ih =>
    obtain ⟨k', v'⟩ := f
    rw [List.map_cons, List.mem_cons, not_or] at h
    unfold setItem
    rw [if_neg (Ne.symm h.1), ih h.2]
    rfl

/-- Distinct keys are read one after another. -/
theorem loadsFields_distinct {d : Dict} {fs : List (String × Json)}
    (h : (d.map Prod.fst ++ fs.map Prod.fst).Nodup) :
    loadsFields d fs = d ++ fs.map (fun f => (f.1, loads f.2)) := by
  induction fs generalizing d with
  | nil => simp [loadsFields]
  | cons f fs ih =>
    obtain ⟨k, v⟩ := f
    have hk : k ∉ d.map Prod.fst := by
      intro hmem
      exact (List.nodup_append.mp h).2.2 k hmem k List.mem_cons_self rfl
    unfold loadsFields
    rw [setItem_new hk]
    rw [ih (by simpa [List.append_assoc] using h)]
    simp [loadsField]

def wireKeys : List String :=
  ["model", "fault", "stream_failed", "idempotent_replay", "budget_skipped",
    "gen_ai.usage.input_tokens", "gen_ai.usage.output_tokens",
    "gen_ai.usage.reasoning.output_tokens", "gen_ai.usage.cache_read.input_tokens",
    "gen_ai.usage.cache_write.input_tokens"]

theorem attrs_sublist (u : TokenUsage) : (u.attrs.map Prod.fst).Sublist (wireKeys.drop 5) := by
  unfold TokenUsage.attrs
  split
  · exact List.nil_sublist _
  · rw [List.map_append]
    exact List.Sublist.append (.refl ["gen_ai.usage.input_tokens", "gen_ai.usage.output_tokens"])
      (List.filter_sublist.map Prod.fst)

theorem members_nodup (e : Gateway.Event) : (e.members.map Prod.fst).Nodup := by
  unfold Event.members
  split <;> split <;> split <;> simp

/-- An event as the control plane's language reads it. -/
def docOf (e : Gateway.Event) : Dict := e.members.map (fun f => (f.1, loads f.2))

theorem loads_json (e : Gateway.Event) : loads e.json = .dict (docOf e) := by
  rw [Event.json, loads, loadsFields_distinct (by simpa using members_nodup e)]
  rfl

theorem fits_option {n : Nat} {p : Prop} [Decidable p] {k : String} {v : Json} (h : Fits n v) :
    ∀ f ∈ (if p then [(k, v)] else []), Fits n f.2 := by
  split
  · intro f hf
    obtain rfl := List.mem_singleton.mp hf
    exact h
  · exact fun _ hf => nomatch hf

theorem fits_wire (e : Gateway.Event) : ∀ f ∈ e.wire, Fits 1 f.2 := by
  have hskipped : Fits 1 (.arr (e.budgetSkipped.map .str)) := by
    refine Fits.arr (fun x hx => ?_)
    obtain ⟨s, -, rfl⟩ := List.mem_map.mp hx
    exact Fits.str 0 s
  have hattrs : ∀ f ∈ e.usage.attrs.map (fun a => (a.1, Json.int a.2)), Fits 1 f.2 := by
    intro f hf
    obtain ⟨a, -, rfl⟩ := List.mem_map.mp hf
    exact Fits.int 1 a.2
  unfold Event.wire
  simp only [List.forall_mem_append]
  exact ⟨⟨⟨⟨⟨fits_option (Fits.str 1 _), fits_option (Fits.str 1 _)⟩, fits_option (Fits.bool 1 _)⟩,
    fits_option (Fits.bool 1 _)⟩, fits_option hskipped⟩, hattrs⟩

theorem fits_event (e : Gateway.Event) : Fits 3 e.json := by
  refine Fits.obj ?_
  unfold Event.members
  simp only [List.forall_mem_append, List.forall_mem_cons, List.not_mem_nil, false_imp_iff,
    implies_true, and_true]
  exact ⟨⟨⟨⟨⟨Fits.str 2 _, Fits.str 2 _, Fits.str 2 _, Fits.str 2 _⟩, fits_option (Fits.str 2 _)⟩,
    Fits.str 2 _, Fits.int 2 _, Fits.int 2 _, Fits.int 2 _, Fits.int 2 _⟩, fits_option (Fits.int 2 _)⟩,
    fits_option (Fits.map (fits_wire e))⟩

theorem scan_bytes (e : Gateway.Event) : GoJson.scan e.bytes = some e.json :=
  (fits_event e).scan (by decide)

theorem members_folded (e : Gateway.Event) :
    (e.members.map (fun f => GoJson.foldName f.1)).Nodup := by
  unfold Event.members
  split <;> split <;> split <;> simp +decide

theorem reads_id : GoJson.Reads eventFields "id" Event.id GoJson.string :=
  .of (by simp [eventFields, GoJson.field]) (by simp +decide [eventFields, GoJson.slot_field])

/-- A spooled event is read back with its id. -/
theorem unmarshal_id {e ev : Gateway.Event} (h : unmarshalEvent e.bytes = some ev) : ev.id = e.id := by
  rw [unmarshalEvent, GoJson.unmarshal, scan_bytes, Option.bind_some] at h
  have htaken := GoJson.members_taken reads_id (members_folded e) h
  have hid : GoJson.member? "id" e.members = some (.str e.id) := by
    unfold Event.members
    rfl
  rw [hid] at htaken
  exact (Option.some.inj htaken).symm

/-- A batch of events as one value. -/
def request (es : List Gateway.Event) : Json := .obj [("events", .arr (es.map Event.json))]

theorem intercalate_cons {α : Type} (sep x : List α) (xs : List (List α)) :
    List.intercalate sep (x :: xs) = x ++ xs.flatMap (fun y => sep ++ y) := by
  induction xs generalizing x with
  | nil => simp [List.intercalate]
  | cons y ys ih =>
    have hnext := ih y
    simp only [List.intercalate, List.intersperse_cons_cons, List.flatten_cons] at hnext ⊢
    rw [hnext, List.flatMap_cons, List.append_assoc]

theorem utf8_more (es : List Gateway.Event) :
    utf8 (Json.printMore GoJson.escape (es.map Event.json)) =
      (es.map Event.bytes).flatMap (fun b => ascii "," ++ b) := by
  induction es with
  | nil => rfl
  | cons e es ih =>
    rw [List.map_cons, Json.printMore_cons, List.map_cons, List.flatMap_cons, ← ih, utf8_cons,
      Json.printElems, utf8_append, ← List.append_assoc]
    rfl

theorem batchBody_request {batch : List Telemetry.Spooled} {es : List Gateway.Event}
    (h : batch.map Telemetry.Spooled.event = es.map Event.bytes) :
    Telemetry.batchBody batch = GoJson.marshal (request es) := by
  have helems : utf8 (Json.printElems GoJson.escape (es.map Event.json)) =
      List.intercalate (ascii ",") (es.map Event.bytes) := by
    cases es with
    | nil => rfl
    | cons e es =>
      rw [List.map_cons, List.map_cons, intercalate_cons, ← utf8_more, Json.printElems, utf8_append]
      rfl
  have hprint : Json.print GoJson.escape (request es) =
      "\x7b\"events\":[".toList ++ Json.printElems GoJson.escape (es.map Event.json) ++ "]\x7d".toList := by
    have hquote : Json.quote GoJson.escape "events" = "\"events\"".toList := by decide
    simp only [request, Json.print, Json.printFields, Json.printField, Json.printRest, hquote]
    simp
  rw [Telemetry.batchBody, h, ← helems, GoJson.marshal, hprint, utf8_append, utf8_append]
  rfl

theorem fits_request (es : List Gateway.Event) : Fits 5 (request es) := by
  refine Fits.obj (fun f hf => ?_)
  obtain rfl := List.mem_singleton.mp hf
  refine Fits.arr (fun x hx => ?_)
  obtain ⟨e, -, rfl⟩ := List.mem_map.mp hx
  exact fits_event e

theorem loadsElems_events (es : List Gateway.Event) :
    loadsElems (es.map Event.json) = es.map (fun e => Py.dict (docOf e)) := by
  induction es with
  | nil => rfl
  | cons e es ih =>
    rw [List.map_cons, loadsElems, loads_json, ih]
    rfl

/-- The control plane reads the events of a batch. -/
theorem jsonLoads_request (es : List Gateway.Event) :
    jsonLoads (GoJson.marshal (request es)) =
      some (.dict [("events", .list (es.map (fun e => Py.dict (docOf e))))]) := by
  have hparse := Json.parse_print ((fits_request es).spelled.mono (fun c _ => GoJson.escape_faithful c))
  rw [jsonLoads, GoJson.marshal, decode_utf8, if_pos rfl, hparse, Option.map_some, request, loads,
    loadsFields, loadsFields, loadsField, loads, loadsElems_events]
  rfl

theorem jsonLoads_bytes (e : Gateway.Event) : jsonLoads e.bytes = some (.dict (docOf e)) := by
  have hparse := Json.parse_print ((fits_event e).spelled.mono (fun c _ => GoJson.escape_faithful c))
  rw [jsonLoads, Event.bytes, GoJson.marshal, decode_utf8, if_pos rfl, hparse, Option.map_some, loads_json]

theorem lookup_docOf (e : Gateway.Event) (k : String) : (docOf e).lookup k = (e.members.lookup k).map loads := by
  unfold docOf
  induction e.members with
  | nil => rfl
  | cons f fs ih =>
    obtain ⟨k', v⟩ := f
    rw [List.map_cons, List.lookup_cons, List.lookup_cons]
    cases k == k' with
    | true => rfl
    | false => exact ih

theorem lookup_id (e : Gateway.Event) : (docOf e).lookup "id" = some (.str e.id) := by
  rw [lookup_docOf]
  unfold Event.members
  rfl

/-- A document that the model accepts, field by field. -/
structure Validates (d : Dict) (ev : Controlplane.Event) : Prop where
  keys : d.all (fun f => eventKeys.contains f.1) = true
  id : required (pattern 32) d "id" = some ev.id
  requestID : required (pattern 32) d "request_id" = some ev.requestID
  traceID : required (pattern 32) d "trace_id" = some ev.traceID
  spanID : required (pattern 16) d "span_id" = some ev.spanID
  parentID : optional (pattern 16) d "parent_id" = some ev.parentID
  provider : required (literal ["", "openai", "anthropic", "gemini", "bedrock"]) d "provider" =
    some ev.provider
  status : required (between 100 599) d "status" = some ev.status
  attempts : required (between 0 64) d "attempts" = some ev.attempts
  startNs : required (atLeast 1) d "start_ns" = some ev.startNs
  endNs : required (atLeast 1) d "end_ns" = some ev.endNs
  policyVersion : optional (atLeast 1) d "policy_version" = some ev.policyVersion
  ext : defaulted asDict [] d "ext" = some ev.ext

theorem modelValidate_iff {d : Dict} {ev : Controlplane.Event} :
    modelValidate d = some ev ↔ Validates d ev := by
  unfold modelValidate
  constructor
  · intro h
    split at h
    · cases h
    · rename_i hkeys
      simp only [bind, Option.bind_eq_some_iff, pure, Option.some.injEq] at h
      obtain ⟨_, h1, _, h2, _, h3, _, h4, _, h5, _, h6, _, h7, _, h8, _, h9, _, h10, _, h11, _, h12, rfl⟩ := h
      exact ⟨by simpa using hkeys, h1, h2, h3, h4, h5, h6, h7, h8, h9, h10, h11, h12⟩
  · intro h
    rw [h.keys, if_neg (by decide), h.id, h.requestID, h.traceID, h.spanID, h.parentID, h.provider,
      h.status, h.attempts, h.startNs, h.endNs, h.policyVersion, h.ext]
    rfl

theorem pattern_some {n : Nat} {v : Py} {s : String} (h : pattern n v = some s) :
    v = .str s ∧ hexadecimal n s = true := by
  unfold pattern at h
  split at h
  · split at h
    · rename_i hhex
      obtain rfl := Option.some.inj h
      exact ⟨rfl, hhex⟩
    · cases h
  · cases h

/-- What is accepted keeps the event's id. -/
theorem modelValidate_id {d : Dict} {ev : Controlplane.Event} (h : modelValidate d = some ev) :
    d.lookup "id" = some (.str ev.id) ∧ hexadecimal 32 ev.id = true := by
  obtain ⟨v, hv, hpattern⟩ := Option.bind_eq_some_iff.mp (modelValidate_iff.mp h).id
  obtain ⟨rfl, hhex⟩ := pattern_some hpattern
  exact ⟨hv, hhex⟩

theorem accepted_id {e : Gateway.Event} {ev : Controlplane.Event}
    (h : modelValidate (docOf e) = some ev) : ev.id = e.id := by
  have hid := (modelValidate_id h).1
  rw [lookup_id] at hid
  exact (Py.str.inj (Option.some.inj hid)).symm

end Switchboard.Proofs.Document
