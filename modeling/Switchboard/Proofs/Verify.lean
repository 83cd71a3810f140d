import Switchboard.Gateway.PolicyText

namespace Switchboard.Proofs.Verify
open Text Gateway

theorem members_invariant {I : α → Prop} {strict : Bool} {fields : List (GoJson.Field α)}
    (hf : ∀ f ∈ fields, ∀ a j a', I a → f.decode a j = some a' → I a')
    {fs : List (String × Json)} {a a' : α} (ha : I a)
    (h : GoJson.members strict fields a fs = some a') : I a' := by
  induction fs generalizing a with
  | nil =>
    obtain rfl := Option.some.inj h
    exact ha
  | cons g gs ih =>
    obtain ⟨key, v⟩ := g
    rw [GoJson.members] at h
    split at h
    · rename_i f hfind
      have hmem : f ∈ fields := by
        unfold GoJson.findField at hfind
        split at hfind
        · rename_i hsome
          obtain rfl := Option.some.inj hfind
          exact List.mem_of_find?_eq_some hsome
        · exact List.mem_of_find?_eq_some hfind
      split at h
      · rename_i a₁ hdec
        exact ih (hf f hmem _ _ _ ha hdec) h
      · cases h
    · split at h
      · cases h
      · exact ih ha h

/-- The integers of a decoded policy are 64-bit. -/
def Sized (p : Policy) : Prop :=
  GoJson.inInt64 p.schema = true ∧ GoJson.inInt64 p.version = true ∧
    GoJson.inInt64 p.issuedAt = true ∧ GoJson.inInt64 p.expiresAt = true

theorem int64_sized {old n : Int} {j : Json} (ho : GoJson.inInt64 old = true)
    (h : GoJson.int64 old j = some n) : GoJson.inInt64 n = true := by
  unfold GoJson.int64 at h
  split at h
  · exact Option.some.inj h ▸ ho
  · exact (Option.filter_eq_some_iff.mp h).2
  · cases h

theorem field_decode {α β : Type} {name : String} {get : α → β} {set : α → β → α}
    {d : GoJson.Decoder β} {a a' : α} {j : Json}
    (h : (GoJson.field name get set d).decode a j = some a') :
    ∃ b, d (get a) j = some b ∧ a' = set a b := by
  simp only [GoJson.field, Option.map_eq_some_iff] at h
  obtain ⟨b, hb, he⟩ := h
  exact ⟨b, hb, he.symm⟩

theorem sized_of_strictJSON {b : Bytes} {p : Policy} (h : strictJSON {} policyFields b = some p) :
    Sized p := by
  simp only [strictJSON, GoJson.unmarshal, Option.bind_eq_some_iff] at h
  obtain ⟨j, -, h⟩ := h
  have hzero : Sized {} := ⟨by decide, by decide, by decide, by decide⟩
  unfold GoJson.struct at h
  split at h
  · exact Option.some.inj h ▸ hzero
  · refine members_invariant ?_ hzero h
    intro f hf a j a' ha hd
    simp only [policyFields, List.mem_cons, List.not_mem_nil, or_false] at hf
    rcases hf with rfl | rfl | rfl | rfl | rfl | rfl
    · obtain ⟨n, hn, rfl⟩ := field_decode hd
      exact ⟨int64_sized ha.1 hn, ha.2⟩
    · obtain ⟨n, -, rfl⟩ := field_decode hd
      exact ha
    · obtain ⟨n, hn, rfl⟩ := field_decode hd
      exact ⟨ha.1, int64_sized ha.2.1 hn, ha.2.2⟩
    · obtain ⟨n, hn, rfl⟩ := field_decode hd
      exact ⟨ha.1, ha.2.1, int64_sized ha.2.2.1 hn, ha.2.2.2⟩
    · obtain ⟨n, hn, rfl⟩ := field_decode hd
      exact ⟨ha.1, ha.2.1, ha.2.2.1, int64_sized ha.2.2.2 hn⟩
    · obtain ⟨n, -, rfl⟩ := field_decode hd
      exact ha
  · cases h

/-- An envelope under a pinned key, signed over the canonical bytes of a policy. -/
structure Carries (ed : Bytes → Bytes → Bytes → Bool) (s : PolicyStore) (raw : Bytes) (p : Policy)
    (e : Envelope) (key sig : Bytes) : Prop where
  short : raw.length ≤ 65536
  decodes : strictJSON {} envelopeFields raw = some e
  pinned : s.keys e.keyID = some key
  named : identifier e.keyID = true
  payload : Base64.decode e.payload.toList = some (canonical p)
  signature : Base64.decode e.signature.toList = some sig
  signed : ed key (signedBytes e.keyID (canonical p)) sig = true

theorem verify_ok_iff {ed : Bytes → Bytes → Bytes → Bool} {s : PolicyStore} {raw : Bytes}
    {now : Int} {allow : Bool} {p : Policy} :
    s.verify ed raw now allow = .ok p ↔
      (∃ e key sig, Carries ed s raw p e key sig) ∧
      strictJSON {} policyFields (canonical p) = some p ∧
      constraintsHold s.tenant now allow p = true ∧ validRoutes [] p.routes = true := by
  constructor
  · intro h
    unfold PolicyStore.verify at h
    split at h
    · cases h
    rename_i hlen
    split at h
    · cases h
    rename_i e he
    split at h
    · cases h
    rename_i key hkey
    split at h
    · cases h
    rename_i hid
    split at h
    · cases h
    rename_i b hb
    split at h
    · cases h
    rename_i sig hsig
    split at h
    · cases h
    rename_i hver
    split at h
    · cases h
    rename_i q hq
    split at h
    · cases h
    rename_i hcan
    split at h
    · cases h
    rename_i hcon
    split at h
    · cases h
    rename_i hroutes
    simp only [Except.ok.injEq] at h
    subst q
    have hbc : b = canonical p := by simpa using hcan
    subst hbc
    exact ⟨⟨e, key, sig, by omega, he, hkey, by simpa using hid, hb, hsig, by simpa using hver⟩,
      hq, by simpa using hcon, by simpa using hroutes⟩
  · rintro ⟨⟨e, key, sig, hc⟩, hdec, hcon, hroutes⟩
    have hlen : ¬65536 < raw.length := Nat.not_lt.mpr hc.short
    simp [PolicyStore.verify, hlen, hc.decodes, hc.pinned, hc.named, hc.payload, hc.signature,
      hc.signed, hdec, hcon, hroutes]

theorem validRoutes_cons {seen : List String} {r : Route} {rs : List Route} :
    validRoutes seen (r :: rs) = true ↔
      (r.Legible ∧ r.provider ∉ seen) ∧ validRoutes (r.provider :: seen) rs = true := by
  rw [validRoutes]
  split
  · rename_i h
    simp only [Bool.or_eq_true, Bool.not_eq_true', List.contains_eq_mem, decide_eq_true_eq] at h
    simp only [Bool.false_eq_true, Route.Legible, false_iff]
    rintro ⟨⟨⟨hp, hm⟩, hs⟩, -⟩
    rcases h with (h | h) | h
    · simp [hp] at h
    · simp [hm] at h
    · exact hs h
  · rename_i h
    simp only [Bool.or_eq_true, Bool.not_eq_true', List.contains_eq_mem, decide_eq_true_eq,
      not_or, Bool.not_eq_false] at h
    exact ⟨fun hr => ⟨h, hr⟩, fun hr => hr.2⟩

theorem validRoutes_iff {seen : List String} {rs : List Route} :
    validRoutes seen rs = true ↔
      (∀ r ∈ rs, r.Legible ∧ r.provider ∉ seen) ∧ (rs.map Route.provider).Nodup := by
  induction rs generalizing seen with
  | nil => simp [validRoutes]
  | cons r rs ih =>
    simp only [validRoutes_cons, ih, List.mem_cons, forall_eq_or_imp, List.map_cons,
      List.nodup_cons, List.mem_map, not_exists, not_and, not_or]
    constructor
    · rintro ⟨hr, hall, hn⟩
      exact ⟨⟨hr, fun q hq => ⟨(hall q hq).1, (hall q hq).2.2⟩⟩, fun q hq => (hall q hq).2.1, hn⟩
    · rintro ⟨⟨hr, hall⟩, hne, hn⟩
      exact ⟨hr, fun q hq => ⟨(hall q hq).1, hne q hq, (hall q hq).2⟩, hn⟩

/-- A policy within bounds for a tenant, whatever its lifetime has to do with now. -/
structure Acceptable (p : Policy) (tenant : String) (now : Int) : Prop where
  schema : p.schema = 1
  tenant : p.tenant = tenant
  named : identifier p.tenant = true
  version : 1 ≤ p.version ∧ p.version ≤ 9007199254740991
  issued : 1 ≤ p.issuedAt ∧ p.issuedAt ≤ now + 60
  lasts : p.issuedAt < p.expiresAt ∧ p.expiresAt ≤ p.issuedAt + 604800
  few : 1 ≤ p.routes.length ∧ p.routes.length ≤ 4
  routes : validRoutes [] p.routes = true

theorem Sized.bounds {p : Policy} (h : Sized p) :
    -9223372036854775808 ≤ p.expiresAt ∧ p.expiresAt ≤ 9223372036854775807 ∧
      -9223372036854775808 ≤ p.issuedAt ∧ p.issuedAt ≤ 9223372036854775807 := by
  obtain ⟨-, -, hi, he⟩ := h
  simp only [GoJson.inInt64, decide_eq_true_eq] at hi he
  omega

theorem constraintsHold_iff {p : Policy} {tenant : String} {now : Int} {allow : Bool} :
    constraintsHold tenant now allow p = true ↔
      p.schema = 1 ∧ p.tenant = tenant ∧ identifier p.tenant = true ∧
      (1 ≤ p.version ∧ p.version ≤ 9007199254740991) ∧
      (1 ≤ p.issuedAt ∧ p.issuedAt ≤ wrap64 (now + 60)) ∧
      (allow = true ∨ now < p.expiresAt) ∧
      (p.issuedAt < p.expiresAt ∧ wrap64 (p.expiresAt - p.issuedAt) ≤ 604800) ∧
      (1 ≤ p.routes.length ∧ p.routes.length ≤ 4) := by
  have hschema : (1 ≤ p.schema ∧ p.schema ≤ 1) ↔ p.schema = 1 := by omega
  simp only [constraintsHold, schemaSupported, policySchema, Bool.and_eq_true, Bool.or_eq_true,
    decide_eq_true_eq, beq_iff_eq, hschema]
  tauto

/-- What is checked of an accepted policy, in plain terms. -/
theorem acceptable_of_verify {ed : Bytes → Bytes → Bytes → Bool} {s : PolicyStore} {raw : Bytes}
    {now : Int} {allow : Bool} {p : Policy} (hnow : -9223372036854775868 ≤ now)
    (h : s.verify ed raw now allow = .ok p) :
    Acceptable p s.tenant now ∧ (allow = true ∨ now < p.expiresAt) := by
  obtain ⟨-, hdec, hcon, hroutes⟩ := verify_ok_iff.mp h
  have hsize := (sized_of_strictJSON hdec).bounds
  obtain ⟨hs, ht, hid, hv, hi, hexp, hl, hr⟩ := constraintsHold_iff.mp hcon
  unfold wrap64 at hi hl
  exact ⟨⟨hs, ht, hid, hv, ⟨hi.1, by omega⟩, ⟨hl.1, by omega⟩, hr, hroutes⟩, hexp⟩

theorem Acceptable.legible {p : Policy} {tenant : String} {now : Int}
    (h : Acceptable p tenant now) (hsize : p.expiresAt ≤ 9223372036854775807) : p.Legible := by
  obtain ⟨hs, -, hid, hv, hi, hl, -, hr⟩ := h
  refine ⟨hid, fun r hrs => ((validRoutes_iff.mp hr).1 r hrs).1, ?_, ?_, ?_, ?_⟩ <;>
    simp only [GoJson.inInt64, decide_eq_true_eq] <;> omega

theorem constraintsHold_of_acceptable {p : Policy} {tenant : String} {now : Int} {allow : Bool}
    (h : Acceptable p tenant now) (hsize : p.expiresAt ≤ 9223372036854775807)
    (hnow : now ≤ 9223372036854775747) (hexp : now < p.expiresAt) :
    constraintsHold tenant now allow p = true := by
  obtain ⟨hs, ht, hid, hv, hi, hl, hf, -⟩ := h
  refine constraintsHold_iff.mpr ⟨hs, ht, hid, hv, ⟨hi.1, ?_⟩, Or.inr hexp, ⟨hl.1, ?_⟩, hf⟩
  · unfold wrap64
    omega
  · unfold wrap64
    omega

end Switchboard.Proofs.Verify
