import Switchboard.Gateway.Idempotency
import Switchboard.Gateway.PolicyText

namespace Switchboard.Proofs.Entry
open Text Gateway

/-- An entry that its file gives back as it was. -/
structure Storable (e : IdemEntry) : Prop where
  stored : GoJson.inInt64 e.stored = true
  status : GoJson.inInt64 e.status = true
  spelled : ∀ j, e.response = some j → Json.Over (fun _ => True) j
  depth : ∀ j, e.response = some j → j.depth < GoJson.maxNestingDepth

theorem spelled (s : String) : Json.Spelled (fun _ => True) s := fun _ _ => trivial

theorem over_append {xs ys : List (String × Json)} (hx : Json.OverFields (fun _ => True) xs)
    (hy : Json.OverFields (fun _ => True) ys) : Json.OverFields (fun _ => True) (xs ++ ys) := by
  induction xs with
  | nil => exact hy
  | cons f fs ih => exact ⟨hx.1, ih hx.2⟩

theorem depth_append (xs ys : List (String × Json)) :
    Json.depthFields (xs ++ ys) = max (Json.depthFields xs) (Json.depthFields ys) := by
  induction xs with
  | nil => simp [Json.depthFields]
  | cons f fs ih => simp [Json.depthFields, ih, Nat.max_assoc]

/-- The members of an entry that are left out when they are zero. -/
theorem over_option {b : Prop} [Decidable b] {k : String} {v : Json}
    (h : Json.Over (fun _ => True) v) :
    Json.OverFields (fun _ => True) (if b then [] else [(k, v)]) := by
  split
  · trivial
  · exact ⟨⟨spelled k, h⟩, trivial⟩

theorem over_entry {e : IdemEntry} (h : Storable e) :
    Json.Over (fun _ => True) (idemEntryJson e) := by
  have hr : Json.OverFields (fun _ => True) (responseField e.response) := by
    cases he : e.response with
    | none => trivial
    | some j => exact ⟨⟨spelled _, h.spelled j he⟩, trivial⟩
  have hs : Json.OverFields (fun _ => True) (if e.stream then [("stream", .bool true)] else []) := by
    split
    · exact ⟨⟨spelled _, trivial⟩, trivial⟩
    · trivial
  refine over_append (over_append (over_append (over_append (over_append ?_ ?_) hs) hr) ?_) ?_
  · exact ⟨⟨spelled _, spelled _⟩, ⟨spelled _, spelled _⟩, ⟨spelled _, Json.numeral_int _⟩, trivial⟩
  · exact over_option (Json.numeral_int _)
  · exact over_option (spelled _)
  · exact over_option (spelled _)

theorem depth_option {b : Prop} [Decidable b] {k : String} {v : Json} (h : v.depth = 0) :
    Json.depthFields (if b then [] else [(k, v)]) = 0 := by
  split
  · rfl
  · simp [Json.depthFields, Json.depthField, h]

theorem depth_entry {e : IdemEntry} (h : Storable e) :
    (idemEntryJson e).depth ≤ GoJson.maxNestingDepth := by
  have hr : Json.depthFields (responseField e.response) < GoJson.maxNestingDepth := by
    cases he : e.response with
    | none => decide
    | some j => simpa [responseField, Json.depthFields, Json.depthField] using h.depth j he
  have hs : Json.depthFields (if e.stream then [("stream", .bool true)] else []) = 0 := by
    split <;> rfl
  simp only [idemEntryJson, Json.depth, depth_append, hs, depth_option (v := Json.int e.status) rfl,
    depth_option (v := .str e.text) rfl, depth_option (v := .str e.finish) rfl]
  simp only [Json.depthFields, Json.depthField, Json.depth, Json.int]
  omega

theorem state_ofString (s : IdemState) : IdemState.ofString s.string = s := by
  cases s <;> decide

theorem members_head (e : IdemEntry) (h : GoJson.inInt64 e.stored = true) :
    GoJson.members false idemEntryFields {} [("state", .str e.state.string),
      ("body_hash", .str e.bodyHash), ("stored_unix", Json.int e.stored)] =
      some { state := e.state, bodyHash := e.bodyHash, stored := e.stored } := by
  simp +decide [GoJson.members, GoJson.findField, idemEntryFields, GoJson.field, GoJson.string,
    idemState, decode_int h, state_ofString]

theorem members_status (a : IdemEntry) {n : Int} (h : GoJson.inInt64 n = true)
    (ha : a.status = 0) :
    GoJson.members false idemEntryFields a (if n = 0 then [] else [("status", Json.int n)]) =
      some { a with status := n } := by
  split
  · rename_i hn
    rw [hn, ← ha]
    rfl
  · simp +decide [GoJson.members, GoJson.findField, idemEntryFields, GoJson.field, decode_int h]

theorem members_stream (a : IdemEntry) (b : Bool) (ha : a.stream = false) :
    GoJson.members false idemEntryFields a (if b then [("stream", .bool true)] else []) =
      some { a with stream := b } := by
  cases b with
  | true =>
    simp +decide [GoJson.members, GoJson.findField, idemEntryFields, GoJson.field, GoJson.bool]
  | false =>
    cases a
    cases ha
    rfl

theorem members_response (a : IdemEntry) (r : Option Json) (ha : a.response = none) :
    GoJson.members false idemEntryFields a (responseField r) = some { a with response := r } := by
  cases r with
  | none =>
    cases a
    cases ha
    rfl
  | some j =>
    simp +decide [responseField, GoJson.members, GoJson.findField, idemEntryFields, GoJson.field,
      GoJson.raw]

theorem members_text (a : IdemEntry) (s : String) (ha : a.text = "") :
    GoJson.members false idemEntryFields a (if s = "" then [] else [("text", .str s)]) =
      some { a with text := s } := by
  split
  · rename_i hs
    rw [hs, ← ha]
    rfl
  · simp +decide [GoJson.members, GoJson.findField, idemEntryFields, GoJson.field, GoJson.string]

theorem members_finish (a : IdemEntry) (s : String) (ha : a.finish = "") :
    GoJson.members false idemEntryFields a (if s = "" then [] else [("finish", .str s)]) =
      some { a with finish := s } := by
  split
  · rename_i hs
    rw [hs, ← ha]
    rfl
  · simp +decide [GoJson.members, GoJson.findField, idemEntryFields, GoJson.field, GoJson.string]

theorem members_entry {e : IdemEntry} (h : Storable e) :
    GoJson.struct false idemEntryFields {} (idemEntryJson e) = some e := by
  simp only [idemEntryJson, GoJson.struct, GoJson.members_append, members_head e h.stored,
    Option.bind_some]
  rw [members_status _ h.status rfl, Option.bind_some, members_stream _ _ rfl, Option.bind_some,
    members_response _ _ rfl, Option.bind_some, members_text _ _ rfl, Option.bind_some,
    members_finish _ _ rfl]

/-- What is written to the file of a key is what is read from it. -/
theorem decode_encode {e : IdemEntry} (h : Storable e) : decodeEntry (encodeEntry e) = some e := by
  rw [decodeEntry, encodeEntry, GoJson.unmarshal,
    GoJson.scan_marshal (over_entry h) (depth_entry h), Option.bind_some, members_entry h]

theorem over_text (k s : String) : Json.OverField (fun _ => True) (k, .str s) :=
  ⟨spelled k, spelled s⟩

theorem over_number (k : String) (n : Int) : Json.OverField (fun _ => True) (k, Json.int n) :=
  ⟨spelled k, Json.numeral_int n⟩

theorem over_completion (id : String) (r : Route) (n : Normalized) (created : Int) :
    Json.Over (fun _ => True) (completion id r n created) := by
  refine GoJson.over_map ?_
  simp only [List.forall_mem_cons, List.not_mem_nil, false_imp_iff, implies_true, and_true]
  refine ⟨over_text _ _, over_text _ _, over_number _ _, over_text _ _, ⟨spelled _, ⟨?_, trivial⟩⟩,
    ⟨spelled _, ?_⟩⟩
  · refine GoJson.over_map ?_
    simp only [List.forall_mem_cons, List.not_mem_nil, false_imp_iff, implies_true, and_true]
    refine ⟨over_number _ _, ⟨spelled _, GoJson.over_map ?_⟩, over_text _ _⟩
    simp only [List.forall_mem_cons, List.not_mem_nil, false_imp_iff, implies_true, and_true]
    exact ⟨over_text _ _, over_text _ _⟩
  · refine GoJson.over_map ?_
    simp only [List.forall_mem_cons, List.not_mem_nil, false_imp_iff, implies_true, and_true]
    exact ⟨over_number _ _, over_number _ _, over_number _ _⟩

theorem depth_completion (id : String) (r : Route) (n : Normalized) (created : Int) :
    (completion id r n created).depth < GoJson.maxNestingDepth := by
  have hmessage : ∀ t : String, (GoJson.map [("role", .str "assistant"), ("content", .str t)]).depth
      ≤ 1 := fun t => GoJson.depth_map (by simp [Json.depth])
  refine Nat.lt_of_le_of_lt (GoJson.depth_map (n := 3) ?_) (by decide)
  simp only [List.forall_mem_cons, List.not_mem_nil, false_imp_iff, implies_true, and_true]
  refine ⟨Nat.zero_le _, Nat.zero_le _, Nat.zero_le _, Nat.zero_le _, ?_, ?_⟩
  · refine Nat.succ_le_succ (Nat.max_le.mpr ⟨GoJson.depth_map (n := 1) ?_, Nat.zero_le _⟩)
    simp [Json.depth, Json.int, hmessage]
  · refine Nat.le_trans (GoJson.depth_map (n := 0) ?_) (by decide)
    simp [Json.depth, Json.int]

/-- An entry without a response of its own. -/
theorem storable_plain {e : IdemEntry} (h : GoJson.inInt64 e.stored = true)
    (hs : GoJson.inInt64 e.status = true) (hr : e.response = none) : Storable e :=
  ⟨h, hs, by simp [hr], by simp [hr]⟩

theorem storable_completion {e : IdemEntry} {id : String} {r : Route} {n : Normalized}
    {created : Int} (h : GoJson.inInt64 e.stored = true) (hs : GoJson.inInt64 e.status = true)
    (hr : e.response = some (completion id r n created)) : Storable e := by
  refine ⟨h, hs, ?_, ?_⟩
  · intro j hj
    rw [hr] at hj
    cases hj
    exact over_completion id r n created
  · intro j hj
    rw [hr] at hj
    cases hj
    exact depth_completion id r n created

end Switchboard.Proofs.Entry
