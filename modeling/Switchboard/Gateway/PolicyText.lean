import Switchboard.Gateway.Policy

namespace Switchboard.Gateway
open Text GoJson

theorem identifierChar_plain {c : Char} (h : identifierChar c = true) : PlainChar c := by
  have hlt : c.toNat < 128 := by
    simp only [identifierChar, alphanumeric, Bool.or_eq_true, decide_eq_true_eq, beq_iff_eq] at h
    rcases h with (((((h | h) | h) | rfl) | rfl) | rfl) | rfl
    · exact Nat.lt_of_le_of_lt h.2 (by decide)
    · exact Nat.lt_of_le_of_lt h.2 (by decide)
    · exact Nat.lt_of_le_of_lt h.2 (by decide)
    all_goals decide
  have hall : ∀ n < 128, identifierChar (Char.ofNat n) = true → PlainChar (Char.ofNat n) := by
    decide
  have hc := hall c.toNat hlt
  rw [Char.ofNat_toNat] at hc
  exact hc h

theorem identifier_spec {s : String} (h : identifier s = true) :
    Json.Spelled PlainChar s ∧ s.toList.length ≤ 128 := by
  unfold identifier at h
  split at h
  · simp at h
  · rename_i c cs heq
    simp only [Bool.and_eq_true, decide_eq_true_eq, List.all_eq_true] at h
    obtain ⟨⟨hc, hlen⟩, hcs⟩ := h
    constructor
    · intro d hd
      rw [heq] at hd
      rcases List.mem_cons.mp hd with rfl | hd
      · exact identifierChar_plain (by simp [identifierChar, hc])
      · exact identifierChar_plain (hcs d hd)
    · rw [heq, List.length_cons]
      omega

theorem knownProvider_iff {s : String} :
    knownProvider s = true ↔ s ∈ ["openai", "anthropic", "gemini", "bedrock"] := by
  simp only [knownProvider, Bool.or_eq_true, beq_iff_eq, List.mem_cons, List.not_mem_nil, or_false]
  tauto

theorem provider_spec {s : String} (h : knownProvider s = true) :
    Json.Spelled PlainChar s ∧ s.toList.length ≤ 9 := by
  have hall : ∀ s ∈ ["openai", "anthropic", "gemini", "bedrock"],
      (∀ c ∈ s.toList, PlainChar c) ∧ s.toList.length ≤ 9 := by decide
  exact hall s (knownProvider_iff.mp h)

theorem canonicalRoute_eq (r : Route) :
    canonicalRoute r = .obj [("model", .str r.model), ("provider", .str r.provider)] := by
  simp +decide [canonicalRoute, GoJson.map, sortKeys, KeyLe]

theorem canonicalJson_eq (p : Policy) :
    canonicalJson p = .obj [("expires_at", Json.int p.expiresAt),
      ("issued_at", Json.int p.issuedAt), ("routes", .arr (p.routes.map canonicalRoute)),
      ("schema", Json.int p.schema), ("tenant", .str p.tenant),
      ("version", Json.int p.version)] := by
  simp +decide [canonicalJson, GoJson.map, sortKeys, KeyLe]

/-- A route can be written and read back. -/
def Route.Legible (r : Route) : Prop := knownProvider r.provider = true ∧ identifier r.model = true

/-- So can a policy, when its strings are identifiers and its integers fit. -/
structure Policy.Legible (p : Policy) : Prop where
  tenant : identifier p.tenant = true
  routes : ∀ r ∈ p.routes, r.Legible
  schema : GoJson.inInt64 p.schema = true
  version : GoJson.inInt64 p.version = true
  issued : GoJson.inInt64 p.issuedAt = true
  expires : GoJson.inInt64 p.expiresAt = true

theorem spelled_key {k : String}
    (h : k ∈ ["expires_at", "issued_at", "routes", "schema", "tenant", "version", "model",
      "provider", "key_id", "payload", "signature"]) : Json.Spelled PlainChar k := by
  have hall : ∀ k ∈ ["expires_at", "issued_at", "routes", "schema", "tenant", "version", "model",
      "provider", "key_id", "payload", "signature"], ∀ c ∈ k.toList, PlainChar c := by
    decide
  exact hall k h

theorem over_route {r : Route} (h : r.Legible) : Json.Over PlainChar (canonicalRoute r) := by
  rw [canonicalRoute_eq]
  exact ⟨⟨spelled_key (by decide), (identifier_spec h.2).1⟩,
    ⟨spelled_key (by decide), (provider_spec h.1).1⟩, trivial⟩

theorem over_routes {rs : List Route} (h : ∀ r ∈ rs, r.Legible) :
    Json.OverElems PlainChar (rs.map canonicalRoute) := by
  induction rs with
  | nil => trivial
  | cons r rs ih =>
    exact ⟨over_route (h r List.mem_cons_self), ih (fun q hq => h q (List.mem_cons_of_mem _ hq))⟩

theorem over_canonical {p : Policy} (h : p.Legible) : Json.Over PlainChar (canonicalJson p) := by
  rw [canonicalJson_eq]
  exact ⟨⟨spelled_key (by decide), Json.numeral_int _⟩, ⟨spelled_key (by decide), Json.numeral_int _⟩,
    ⟨spelled_key (by decide), over_routes h.routes⟩, ⟨spelled_key (by decide), Json.numeral_int _⟩,
    ⟨spelled_key (by decide), (identifier_spec h.tenant).1⟩,
    ⟨spelled_key (by decide), Json.numeral_int _⟩, trivial⟩

theorem depth_routes (rs : List Route) : Json.depthElems (rs.map canonicalRoute) ≤ 1 := by
  induction rs with
  | nil => exact Nat.zero_le _
  | cons r rs ih =>
    have hr : (canonicalRoute r).depth = 1 := by
      rw [canonicalRoute_eq]
      rfl
    simp only [List.map_cons, Json.depthElems, hr]
    omega

theorem depth_canonical (p : Policy) : (canonicalJson p).depth ≤ GoJson.maxNestingDepth := by
  have hr := depth_routes p.routes
  rw [canonicalJson_eq]
  simp only [Json.depth, Json.depthFields, Json.depthField, Json.int, GoJson.maxNestingDepth]
  omega

theorem canonical_plain {p : Policy} (h : p.Legible) :
    canonical p = utf8 (Json.plainText (canonicalJson p)) :=
  marshal_plain (over_canonical h)

theorem decode_int {n old : Int} (h : GoJson.inInt64 n = true) :
    GoJson.int64 old (Json.int n) = some n := by
  simp [GoJson.int64, Json.int, Json.intOf_intLit, h]

theorem decode_route (r : Route) :
    GoJson.struct true routeFields {} (canonicalRoute r) = some r := by
  rw [canonicalRoute_eq]
  simp +decide [GoJson.struct, GoJson.members, GoJson.findField, routeFields, GoJson.field,
    GoJson.string]

theorem decode_routes (rs : List Route) :
    GoJson.elements {} (GoJson.struct true routeFields) [] (rs.map canonicalRoute) = some rs := by
  induction rs with
  | nil => rfl
  | cons r rs ih =>
    have hr := decode_route r
    simp only [List.map_cons, GoJson.elements, List.headD, List.tail, ih, hr]

theorem decode_canonical {p : Policy} (h : p.Legible) :
    GoJson.struct true policyFields {} (canonicalJson p) = some p := by
  rw [canonicalJson_eq]
  simp +decide [GoJson.struct, GoJson.members, GoJson.findField, policyFields, GoJson.field,
    GoJson.string, decode_int h.schema, decode_int h.version, decode_int h.issued,
    decode_int h.expires, GoJson.slice, decode_routes]

/-- The canonical bytes of a policy decode to that policy. -/
theorem strictJSON_canonical {p : Policy} (h : p.Legible) :
    strictJSON {} policyFields (canonical p) = some p := by
  rw [canonical_plain h, strictJSON, GoJson.unmarshal,
    scan_plain (over_canonical h) (depth_canonical p)]
  exact decode_canonical h

end Switchboard.Gateway
