import Switchboard.Controlplane.Policy
import Switchboard.Proofs.Verify
import Switchboard.Text.Within

namespace Switchboard.Proofs.Signer
open Text Gateway Controlplane Verify
open GoJson (PlainChar)

def intOf? (d : Dict) (k : String) : Option Int :=
  match d.lookup k with
  | some (.int n) => some n
  | _ => none

def strOf? (d : Dict) (k : String) : Option String :=
  match d.lookup k with
  | some (.str s) => some s
  | _ => none

def routeOf : Py → Option Route
  | .dict r => do return ⟨← strOf? r "provider", ← strOf? r "model"⟩
  | _ => none

def routesOf? (d : Dict) : Option (List Route) :=
  match d.lookup "routes" with
  | some (.list rs) => rs.mapM routeOf
  | _ => none

/-- The fields of a document, its routes in order. -/
def policyOf (d : Dict) : Option Policy := do
  return ⟨← intOf? d "schema", ← strOf? d "tenant", ← intOf? d "version", ← intOf? d "issued_at",
    ← intOf? d "expires_at", ← routesOf? d⟩

theorem intOf?_eq {d : Dict} {k : String} {n : Int} :
    intOf? d k = some n ↔ d.lookup k = some (.int n) := by
  unfold intOf?
  split
  · rename_i m h
    simp [h]
  · rename_i hne
    constructor
    · intro h
      cases h
    · intro h
      exact absurd h (hne n)

theorem strOf?_eq {d : Dict} {k s : String} :
    strOf? d k = some s ↔ d.lookup k = some (.str s) := by
  unfold strOf?
  split
  · rename_i m h
    simp [h]
  · rename_i hne
    constructor
    · intro h
      cases h
    · intro h
      exact absurd h (hne s)

/-- The six entries of a document that has exactly the fields of a policy. -/
structure Reads (d : Dict) (q : Policy) (rs : List Py) : Prop where
  schema : d.lookup "schema" = some (.int q.schema)
  tenant : d.lookup "tenant" = some (.str q.tenant)
  version : d.lookup "version" = some (.int q.version)
  issued : d.lookup "issued_at" = some (.int q.issuedAt)
  expires : d.lookup "expires_at" = some (.int q.expiresAt)
  listed : d.lookup "routes" = some (.list rs)
  routes : rs.mapM routeOf = some q.routes

theorem policyOf_eq {d : Dict} {q : Policy} : policyOf d = some q ↔ ∃ rs, Reads d q rs := by
  constructor
  · intro h
    simp only [policyOf, bind, Option.bind_eq_some_iff, pure, Option.some.injEq] at h
    obtain ⟨a, ha, b, hb, c, hc, e, he, f, hf, rs, hrs, rfl⟩ := h
    unfold routesOf? at hrs
    split at hrs
    · rename_i rs' hl
      exact ⟨rs', intOf?_eq.mp ha, strOf?_eq.mp hb, intOf?_eq.mp hc, intOf?_eq.mp he,
        intOf?_eq.mp hf, hl, hrs⟩
    · cases hrs
  · rintro ⟨rs, h⟩
    simp [policyOf, routesOf?, intOf?, strOf?, h.schema, h.tenant, h.version, h.issued, h.expires,
      h.listed, h.routes]

theorem keysAre_iff {d : Dict} {names : List String} :
    keysAre d names = true ↔ ∀ k, k ∈ d.map Prod.fst ↔ k ∈ names := by
  simp only [keysAre, Bool.and_eq_true, List.all_eq_true, List.contains_eq_mem, decide_eq_true_eq]
  constructor
  · rintro ⟨h1, h2⟩ k
    constructor
    · intro hk
      obtain ⟨f, hf, rfl⟩ := List.mem_map.mp hk
      exact h1 f hf
    · exact h2 k
  · intro h
    exact ⟨fun f hf => (h f.1).mp (List.mem_map.mpr ⟨f, hf, rfl⟩), fun k hk => (h k).mpr hk⟩

/-- A route of a document, and the one it stands for. -/
def RouteIs (v : Py) (r : Route) : Prop :=
  ∃ d, v = .dict d ∧ keysAre d ["provider", "model"] = true ∧
    d.lookup "provider" = some (.str r.provider) ∧ d.lookup "model" = some (.str r.model)

theorem mem_providers {p : String} : p ∈ providers ↔ knownProvider p = true :=
  knownProvider_iff.symm

theorem validateRoutes_ok {seen : List String} {vs : List Py}
    (h : validateRoutes seen vs = .ok ()) :
    ∃ rs, List.Forall₂ RouteIs vs rs ∧ validRoutes seen rs = true := by
  induction vs generalizing seen with
  | nil => exact ⟨[], .nil, rfl⟩
  | cons v vs ih =>
    unfold validateRoutes at h
    split at h
    · rename_i heq
      cases heq
    · rename_i d ds heq
      obtain ⟨rfl, rfl⟩ := List.cons.inj heq
      split at h
      · cases h
      rename_i hkeys
      split at h
      · rename_i p hp
        split at h
        · cases h
        rename_i hprov
        split at h
        · rename_i m hm
          split at h
          · cases h
          rename_i hid
          obtain ⟨rs, hall, hvalid⟩ := ih h
          simp only [Bool.or_eq_true, Bool.not_eq_true', List.contains_eq_mem, decide_eq_true_eq,
            not_or, Bool.not_eq_false, mem_providers] at hprov hkeys hid
          refine ⟨⟨p, m⟩ :: rs, .cons ⟨d, rfl, hkeys, hp, hm⟩ hall, ?_⟩
          exact validRoutes_cons.mpr ⟨⟨⟨hprov.1, hid⟩, hprov.2⟩, hvalid⟩
        · cases h
      · cases h
    · cases h

theorem validateRoutes_of_valid {seen : List String} {vs : List Py} {rs : List Route}
    (hall : List.Forall₂ RouteIs vs rs) (h : validRoutes seen rs = true) :
    validateRoutes seen vs = .ok () := by
  induction hall generalizing seen with
  | nil => rfl
  | cons hr _ ih =>
    obtain ⟨d, rfl, hkeys, hp, hm⟩ := hr
    obtain ⟨⟨hleg, hseen⟩, hrest⟩ := validRoutes_cons.mp h
    simp [validateRoutes, hkeys, hp, hm, mem_providers.mpr hleg.1, hleg.2, hseen, ih hrest]

theorem routeOf_of_is {v : Py} {r : Route} (h : RouteIs v r) : routeOf v = some r := by
  obtain ⟨d, rfl, -, hp, hm⟩ := h
  simp [routeOf, strOf?, hp, hm]

theorem mapM_routeOf {vs : List Py} {rs : List Route} (h : List.Forall₂ RouteIs vs rs) :
    vs.mapM routeOf = some rs := by
  induction h with
  | nil => rfl
  | cons hr _ ih => simp [List.mapM_cons, routeOf_of_is hr, ih]

/-- A document the signer accepts is a policy within bounds, and unexpired. -/
structure Accepted (d : Dict) (q : Policy) (tenant : String) (now : Int) : Prop where
  keys : keysAre d policyKeys = true
  reads : ∃ vs, Reads d q vs ∧ List.Forall₂ RouteIs vs q.routes
  bounds : Acceptable q tenant now
  unexpired : now < q.expiresAt

theorem isInt_eq {d : Dict} {k : String} (h : isInt d k = true) :
    d.lookup k = some (.int (intAt d k)) := by
  unfold isInt at h
  split at h
  · rename_i n hn
    simp [intAt, hn]
  · cases h

theorem isStr_eq {d : Dict} {k s : String} (h : isStr d k s = true) :
    d.lookup k = some (.str s) := by
  unfold isStr at h
  split at h
  · rename_i s' hs
    rw [hs, beq_iff_eq.mp h]
  · cases h

theorem validatePolicy_ok {d d' : Dict} {tenant : String} {now : Int}
    (h : validatePolicy d tenant now = .ok d') : d' = d ∧ ∃ q, Accepted d q tenant now := by
  unfold validatePolicy at h
  split at h
  · cases h
  rename_i hkeys
  split at h
  · cases h
  rename_i hints
  split at h
  · cases h
  rename_i htenant
  split at h
  · cases h
  rename_i hversion
  split at h
  · cases h
  rename_i hlife
  split at h
  · rename_i vs hvs
    split at h
    · cases h
    rename_i hlen
    split at h
    · cases h
    rename_i hroutes
    simp only [Except.ok.injEq] at h
    obtain ⟨rs, hall, hvalid⟩ := validateRoutes_ok hroutes
    simp only [List.all_cons, List.all_nil, Bool.and_true, Bool.not_eq_true', Bool.and_eq_true,
      Bool.not_eq_false, not_or, Classical.not_not, ne_eq]
      at hkeys hints htenant hversion hlife hlen
    obtain ⟨h1, h2, h3, h4⟩ := hints
    obtain ⟨hs, ht, hid⟩ := htenant
    refine ⟨h.symm, ⟨intAt d "schema", tenant, intAt d "version", intAt d "issued_at",
      intAt d "expires_at", rs⟩, hkeys, ⟨vs, ⟨isInt_eq h1, isStr_eq ht, isInt_eq h2, isInt_eq h3,
      isInt_eq h4, hvs, mapM_routeOf hall⟩, hall⟩, ⟨hs, rfl, hid, hversion, hlife.1, ?_, ?_,
      hvalid⟩, ?_⟩
    · dsimp only
      omega
    · rw [← hall.length_eq]
      exact hlen
    · dsimp only
      omega
  · cases h

theorem validatePolicy_of_accepted {d : Dict} {q : Policy} {tenant : String} {now : Int}
    (h : Accepted d q tenant now) : validatePolicy d tenant now = .ok d := by
  obtain ⟨hkeys, ⟨vs, hr, hall⟩, hb, hexp⟩ := h
  have hvalid := validateRoutes_of_valid hall hb.routes
  have hlen := hall.length_eq
  have hv := hb.version
  have hi := hb.issued
  have hl := hb.lasts
  have hf := hb.few
  have ht : isStr d "tenant" tenant = true := by simp [isStr, hr.tenant, hb.tenant]
  have hid : identifier tenant = true := hb.tenant ▸ hb.named
  have hmax : max now q.issuedAt < q.expiresAt := by omega
  have hints : (["schema", "version", "issued_at", "expires_at"].all (isInt d)) = true := by
    simp [isInt, hr.schema, hr.version, hr.issued, hr.expires]
  have hs : intAt d "schema" = 1 := by simp [intAt, hr.schema, hb.schema]
  have hver : intAt d "version" = q.version := by simp [intAt, hr.version]
  have hiss : intAt d "issued_at" = q.issuedAt := by simp [intAt, hr.issued]
  have hex : intAt d "expires_at" = q.expiresAt := by simp [intAt, hr.expires]
  simp [validatePolicy, hkeys, hints, hs, ht, hid, hver, hiss, hex, hv.1, hv.2, hi.1, hi.2,
    hmax, hl.2, hr.listed, hlen, hf.1, hf.2, hvalid]

/-- A dictionary that was read from a text, as were all those inside it. -/
def Loaded (d : Dict) : Prop := ∃ fs, d = loadsFields [] fs

theorem setItem_keys {k : String} {v : Py} {d : Dict} {k' : String} :
    k' ∈ (setItem k v d).map Prod.fst ↔ k' = k ∨ k' ∈ d.map Prod.fst := by
  induction d with
  | nil => simp [setItem]
  | cons f d ih =>
    obtain ⟨k₁, v₁⟩ := f
    rw [setItem]
    split
    · subst k₁
      simp
    · simp only [List.map_cons, List.mem_cons, ih]
      tauto

theorem setItem_nodup {k : String} {v : Py} {d : Dict} (h : (d.map Prod.fst).Nodup) :
    ((setItem k v d).map Prod.fst).Nodup := by
  induction d with
  | nil => simp [setItem]
  | cons f d ih =>
    obtain ⟨k₁, v₁⟩ := f
    rw [List.map_cons, List.nodup_cons] at h
    rw [setItem]
    split
    · subst k₁
      exact List.nodup_cons.mpr h
    · rename_i hne
      refine List.nodup_cons.mpr ⟨?_, ih h.2⟩
      rw [setItem_keys]
      rintro (heq | hmem)
      · exact hne heq
      · exact h.1 hmem

theorem setItem_mem {k : String} {v : Py} {d : Dict} {f : String × Py} (h : f ∈ setItem k v d) :
    f = (k, v) ∨ f ∈ d := by
  induction d with
  | nil => exact Or.inl (List.mem_singleton.mp h)
  | cons g d ih =>
    obtain ⟨k₁, v₁⟩ := g
    rw [setItem] at h
    split at h
    · rcases List.mem_cons.mp h with h | h
      · exact Or.inl h
      · exact Or.inr (List.mem_cons_of_mem _ h)
    · rcases List.mem_cons.mp h with rfl | h
      · exact Or.inr List.mem_cons_self
      · rcases ih h with h | h
        · exact Or.inl h
        · exact Or.inr (List.mem_cons_of_mem _ h)

theorem loadsFields_spec {d : Dict} {fs : List (String × Json)} (hn : (d.map Prod.fst).Nodup)
    (hv : ∀ f ∈ d, ∃ j, f.2 = loads j) :
    ((loadsFields d fs).map Prod.fst).Nodup ∧ ∀ f ∈ loadsFields d fs, ∃ j, f.2 = loads j := by
  induction fs generalizing d with
  | nil => exact ⟨hn, hv⟩
  | cons f fs ih =>
    obtain ⟨k, v⟩ := f
    refine ih (setItem_nodup hn) ?_
    intro g hg
    rcases setItem_mem hg with rfl | hg
    · exact ⟨v, rfl⟩
    · exact hv g hg

theorem Loaded.spec {d : Dict} (h : Loaded d) :
    (d.map Prod.fst).Nodup ∧ ∀ f ∈ d, ∃ j, f.2 = loads j := by
  obtain ⟨fs, rfl⟩ := h
  exact loadsFields_spec (d := []) List.nodup_nil (by simp)

theorem Loaded.nodup {d : Dict} (h : Loaded d) : (d.map Prod.fst).Nodup := h.spec.1

theorem Loaded.value {d : Dict} {k : String} {v : Py} (h : Loaded d) (hk : d.lookup k = some v) :
    ∃ j, v = loads j :=
  h.spec.2 _ (mem_of_lookup hk)

theorem loads_num (lit : List Char) : (∃ n, loads (.num lit) = .int n) ∨
    loads (.num lit) = .float lit := by
  rw [loads]
  split
  · rename_i n _
    exact Or.inl ⟨n, rfl⟩
  · exact Or.inr rfl

theorem loads_dict {j : Json} {d : Dict} (h : loads j = .dict d) : Loaded d := by
  cases j with
  | obj fs => exact ⟨fs, (Py.dict.inj h).symm⟩
  | num lit => rcases loads_num lit with ⟨n, hn⟩ | hn <;> rw [hn] at h <;> cases h
  | null => cases h
  | bool b => cases h
  | str s => cases h
  | arr xs => cases h

theorem loads_list {j : Json} {vs : List Py} (h : loads j = .list vs) :
    ∀ v ∈ vs, ∃ j', v = loads j' := by
  cases j with
  | arr xs =>
    obtain rfl := Py.list.inj h
    intro v hv
    induction xs with
    | nil => cases hv
    | cons x xs ih =>
      rw [loadsElems] at hv
      rcases List.mem_cons.mp hv with rfl | hv
      · exact ⟨x, rfl⟩
      · exact ih rfl hv
  | num lit => rcases loads_num lit with ⟨n, hn⟩ | hn <;> rw [hn] at h <;> cases h
  | null => cases h
  | bool b => cases h
  | str s => cases h
  | obj fs => cases h

theorem sortedElems_map (vs : List Py) : sortedElems vs = vs.map sorted := by
  induction vs with
  | nil => rfl
  | cons v vs ih => rw [sortedElems, ih, List.map_cons]

theorem sortedItems_map (d : Dict) : sortedItems d = d.map (fun f => (f.1, sorted f.2)) := by
  induction d with
  | nil => rfl
  | cons f d ih =>
    obtain ⟨k, v⟩ := f
    rw [sortedItems, ih, List.map_cons, sortedItem]

/-- A loaded dictionary with known keys is written as a map of those keys is. -/
theorem sorted_dict {d : Dict} {names : List String} {get : String → Py} (hd : Loaded d)
    (hnames : names.Nodup) (hk : ∀ k, k ∈ d.map Prod.fst ↔ k ∈ names)
    (hget : ∀ k ∈ names, d.lookup k = some (get k)) :
    sorted (.dict d) = GoJson.map (names.map (fun k => (k, sorted (get k)))) := by
  have hperm := (perm_of_keys get hd.nodup hnames hk hget).map (fun f => (f.1, sorted f.2))
  have hn : ((d.map (fun f => (f.1, sorted f.2))).map Prod.fst).Nodup := by
    rw [List.map_map]
    exact hd.nodup
  rw [sorted, sortedItems_map, sortKeys_eq hn hperm, List.map_map]
  rfl

theorem sorted_route {v : Py} {r : Route} {j : Json} (h : RouteIs v r) (hj : v = loads j) :
    sorted v = canonicalRoute r := by
  obtain ⟨d, rfl, hkeys, hp, hm⟩ := h
  have hk : ∀ k, k ∈ d.map Prod.fst ↔ k ∈ ["model", "provider"] := by
    intro k
    rw [keysAre_iff.mp hkeys k]
    simp only [List.mem_cons, List.not_mem_nil, or_false]
    tauto
  have hget : ∀ k ∈ ["model", "provider"], d.lookup k =
      some (if k = "model" then Py.str r.model else Py.str r.provider) := by
    simp [hp, hm]
  rw [sorted_dict (loads_dict hj.symm) (by decide) hk hget, canonicalRoute]
  simp [sorted]

theorem sorted_routes {vs : List Py} {rs : List Route} (h : List.Forall₂ RouteIs vs rs)
    (hv : ∀ v ∈ vs, ∃ j, v = loads j) : vs.map sorted = rs.map canonicalRoute := by
  induction h with
  | nil => rfl
  | cons hr _ ih =>
    obtain ⟨j, hj⟩ := hv _ List.mem_cons_self
    rw [List.map_cons, List.map_cons, sorted_route hr hj,
      ih (fun v hmem => hv v (List.mem_cons_of_mem _ hmem))]

/-- Both languages write an accepted document as the same value. -/
theorem sorted_policy {d : Dict} {q : Policy} {tenant : String} {now : Int} (hd : Loaded d)
    (h : Accepted d q tenant now) : sorted (.dict d) = canonicalJson q := by
  obtain ⟨hkeys, ⟨vs, hr, hall⟩, -, -⟩ := h
  obtain ⟨j, hj⟩ := hd.value hr.listed
  have hroutes := sorted_routes hall (loads_list hj.symm)
  have hget : ∀ k ∈ policyKeys, d.lookup k = some (
      if k = "schema" then .int q.schema else if k = "tenant" then .str q.tenant
      else if k = "version" then .int q.version else if k = "issued_at" then .int q.issuedAt
      else if k = "expires_at" then .int q.expiresAt else .list vs) := by
    simp [policyKeys, hr.schema, hr.tenant, hr.version, hr.issued, hr.expires, hr.listed]
  rw [sorted_dict hd (by decide) (keysAre_iff.mp hkeys) hget, canonicalJson]
  simp [policyKeys, sorted, sortedElems_map, hroutes]

theorem escape_verbatim {c : Char} (h : PlainChar c) (ascii : Bool) :
    Json.Verbatim (Controlplane.escape ascii) c := by
  obtain ⟨hq, hb, -, -, -⟩ := h.ne
  obtain ⟨hn, hr, ht⟩ := h.ne_control
  obtain ⟨hge, hlt, -⟩ := h
  have h1 : ¬c.toNat = 8 := by omega
  have h2 : ¬c.toNat = 12 := by omega
  have h3 : ¬c.toNat < 32 := by omega
  simp [Json.Verbatim, Controlplane.escape, hq, hb, hn, hr, ht, h1, h2, h3, hlt]

/-- The signer's bytes are the verifier's canonical bytes. -/
theorem canonical_eq {d : Dict} {q : Policy} {tenant : String} {now : Int} (hd : Loaded d)
    (h : Accepted d q tenant now) (hq : q.Legible) :
    Controlplane.canonical d = Gateway.canonical q := by
  have hover := over_canonical hq
  rw [Controlplane.canonical, sorted_policy hd h, canonical_plain hq,
    Json.print_verbatim _ (hover.mono (fun _ hc => escape_verbatim hc true))]

theorem route_length {r : Route} (h : r.Legible) :
    (Json.plainText (canonicalRoute r)).length ≤ 200 := by
  have hm := (identifier_spec h.2).2
  have hp := (provider_spec h.1).2
  have hkm : ("model".toList).length = 5 := by decide
  have hkp : ("provider".toList).length = 8 := by decide
  simp only [canonicalRoute_eq, Json.plainText, Json.print, Json.printFields, Json.printField,
    Json.printRest, List.length_append, List.length_cons, List.length_nil, Json.quote_length, hkm, hkp]
  omega

theorem elems_length {rs : List Route} (h : ∀ r ∈ rs, r.Legible) :
    (Json.printElems (fun c => [c]) (rs.map canonicalRoute)).length ≤ 201 * rs.length := by
  have hlen := @Json.printElems_length (fun c => [c]) 200 (rs.map canonicalRoute) ?_
  · rwa [List.length_map] at hlen
  · intro x hx
    obtain ⟨r, hr, rfl⟩ := List.mem_map.mp hx
    exact route_length (h r hr)

theorem canonical_length {q : Policy} {tenant : String} {now : Int} (h : Acceptable q tenant now)
    (hsize : q.expiresAt ≤ 9223372036854775807) : (Gateway.canonical q).length ≤ 2000 := by
  have hq := h.legible hsize
  have hover := over_canonical hq
  rw [canonical_plain hq,
    utf8_length_ascii (Json.plain_ascii _ (hover.mono (fun _ hc => hc.ascii))), canonicalJson_eq]
  obtain ⟨hs, -, hid, hv, hi, hl, hf, -⟩ := h
  have ht := (identifier_spec hid).2
  have hr := elems_length hq.routes
  have h1 : (Json.intLit q.expiresAt).length ≤ 20 := Json.intLit_length (by omega)
  have h2 : (Json.intLit q.issuedAt).length ≤ 20 := Json.intLit_length (by omega)
  have h3 : (Json.intLit q.schema).length ≤ 20 := Json.intLit_length (by omega)
  have h4 : (Json.intLit q.version).length ≤ 20 := Json.intLit_length (by omega)
  have hk : ∀ k ∈ ["expires_at", "issued_at", "routes", "schema", "tenant", "version"],
      k.toList.length ≤ 10 := by decide
  simp only [List.mem_cons, forall_eq_or_imp, List.not_mem_nil, false_implies, implies_true,
    and_true] at hk
  simp only [Json.plainText, Json.print, Json.printFields, Json.printField, Json.printRest,
    Json.int, List.length_append, List.length_cons, List.length_nil, Json.quote_length]
  omega

theorem base64_spelled (b : Bytes) :
    Json.Spelled PlainChar (String.ofList (Base64.encode b)) := by
  intro c hc
  rw [String.toList_ofList] at hc
  exact (Base64.encode_encoded b c hc).2

theorem over_envelope {e : Envelope} (hk : Json.Spelled PlainChar e.keyID)
    (hp : Json.Spelled PlainChar e.payload) (hs : Json.Spelled PlainChar e.signature) :
    Json.Over PlainChar (.obj [("key_id", .str e.keyID), ("payload", .str e.payload),
      ("signature", .str e.signature)]) :=
  ⟨⟨spelled_key (by decide), hk⟩, ⟨spelled_key (by decide), hp⟩, ⟨spelled_key (by decide), hs⟩,
    trivial⟩

/-- The verifier reads the envelope the control plane answered. -/
theorem strictJSON_respond {e : Envelope} (hk : Json.Spelled PlainChar e.keyID)
    (hp : Json.Spelled PlainChar e.payload) (hs : Json.Spelled PlainChar e.signature) :
    strictJSON {} envelopeFields (respond e) = some e := by
  have hover := over_envelope hk hp hs
  have hdepth : (Json.obj [("key_id", .str e.keyID), ("payload", .str e.payload),
      ("signature", .str e.signature)]).depth ≤ GoJson.maxNestingDepth := by
    simp [Json.depth, Json.depthFields, Json.depthField, GoJson.maxNestingDepth]
  rw [respond, Json.print_verbatim _ (hover.mono (fun _ hc => escape_verbatim hc false)),
    strictJSON, GoJson.unmarshal, GoJson.scan_plain hover hdepth]
  simp +decide [GoJson.struct, GoJson.members, GoJson.findField, envelopeFields, GoJson.field,
    GoJson.string]

theorem respond_length {e : Envelope} (hk : Json.Spelled PlainChar e.keyID)
    (hp : Json.Spelled PlainChar e.payload) (hs : Json.Spelled PlainChar e.signature) :
    (respond e).length =
      e.keyID.toList.length + e.payload.toList.length + e.signature.toList.length + 41 := by
  have hover := over_envelope hk hp hs
  have h1 : ("key_id".toList).length = 6 := by decide
  have h2 : ("payload".toList).length = 7 := by decide
  have h3 : ("signature".toList).length = 9 := by decide
  rw [respond, Json.print_verbatim _ (hover.mono (fun _ hc => escape_verbatim hc false)),
    utf8_length_ascii (Json.plain_ascii _ (hover.mono (fun _ hc => hc.ascii)))]
  simp only [Json.plainText, Json.print, Json.printFields, Json.printField, Json.printRest,
    List.length_append, List.length_cons, List.length_nil, Json.quote_length, h1, h2, h3]
  omega

/-- The envelope of a payload. -/
def envelopeOf (ed : Ed25519) (keyID : String) (seed payload : Bytes) : Envelope :=
  ⟨keyID, String.ofList (Base64.encode payload),
    String.ofList (Base64.encode (ed.sign seed (signedBytes keyID payload)))⟩

theorem sign_ok {ed : Ed25519} {d : Dict} {keyID : String} {seed : Bytes} {now : Int}
    {e : Envelope} (h : sign ed d keyID seed now = .ok e) :
    identifier keyID = true ∧ seed.length = 32 ∧
      e = envelopeOf ed keyID seed (Controlplane.canonical d) := by
  unfold Controlplane.sign at h
  split at h
  · cases h
  · split at h
    · cases h
    · split at h
      · cases h
      rename_i hid
      split at h
      · cases h
      rename_i hlen
      simp only [Except.ok.injEq] at h
      exact ⟨by simpa using hid, by simpa using hlen, h.symm⟩
  · cases h

theorem sign_of_accepted {ed : Ed25519} {d : Dict} {q : Policy} {tenant keyID : String}
    {seed : Bytes} {now : Int} (h : Accepted d q tenant now) (hid : identifier keyID = true)
    (hseed : seed.length = 32) : ∃ e, sign ed d keyID seed now = .ok e := by
  have hv := validatePolicy_of_accepted h
  obtain ⟨-, ⟨vs, hr, -⟩, hb, -⟩ := h
  rw [← hb.tenant] at hv
  simp [Controlplane.sign, hr.tenant, hv, hid, hseed]

/-- An envelope of canonical bytes carries the policy they stand for. -/
theorem carries_envelope {ed : Ed25519} {q : Policy} {tenant keyID : String} {seed : Bytes} {now : Int}
    {s : PolicyStore} (h : Acceptable q tenant now) (hsize : q.expiresAt ≤ 9223372036854775807)
    (hid : identifier keyID = true) (hseed : seed.length = 32)
    (hkey : s.keys keyID = some (ed.publicKey seed)) :
    Carries ed.verify s (respond (envelopeOf ed keyID seed (Gateway.canonical q))) q
      (envelopeOf ed keyID seed (Gateway.canonical q)) (ed.publicKey seed)
      (ed.sign seed (signedBytes keyID (Gateway.canonical q))) := by
  have hkid := identifier_spec hid
  have hspell := base64_spelled
  have hlen := canonical_length h hsize
  refine ⟨?_, strictJSON_respond hkid.1 (hspell _) (hspell _), hkey, hid, ?_, ?_, ?_⟩
  · rw [respond_length hkid.1 (hspell _) (hspell _), envelopeOf, String.toList_ofList,
      String.toList_ofList]
    have hp := Base64.encode_length (Gateway.canonical q)
    have hs := Base64.encode_length (ed.sign seed (signedBytes keyID (Gateway.canonical q)))
    rw [ed.sign_length] at hs
    dsimp only
    omega
  · rw [envelopeOf, String.toList_ofList, Base64.decode_encode]
  · rw [envelopeOf, String.toList_ofList, Base64.decode_encode]
  · exact (ed.verify_iff seed _ _ hseed).mpr rfl

theorem verify_envelope {ed : Ed25519} {q : Policy} {keyID : String} {seed : Bytes} {now : Int}
    {allow : Bool} {s : PolicyStore} (h : Acceptable q s.tenant now)
    (hsize : q.expiresAt ≤ 9223372036854775807) (hnow : now ≤ 9223372036854775747)
    (hexp : now < q.expiresAt) (hid : identifier keyID = true) (hseed : seed.length = 32)
    (hkey : s.keys keyID = some (ed.publicKey seed)) :
    s.verify ed.verify (respond (envelopeOf ed keyID seed (Gateway.canonical q))) now allow = .ok q :=
  verify_ok_iff.mpr ⟨⟨_, _, _, carries_envelope h hsize hid hseed hkey⟩,
    strictJSON_canonical (h.legible hsize), constraintsHold_of_acceptable h hsize hnow hexp,
    h.routes⟩

theorem loads_route (r : Route) : RouteIs (loads (canonicalRoute r)) r := by
  rw [canonicalRoute_eq]
  refine ⟨[("model", .str r.model), ("provider", .str r.provider)], ?_, ?_, ?_, ?_⟩
  · simp [loads, loadsFields, loadsField, setItem]
  · simp [keysAre]
  · simp [List.lookup]
  · simp [List.lookup]

theorem loads_routes (rs : List Route) :
    List.Forall₂ RouteIs (loadsElems (rs.map canonicalRoute)) rs := by
  induction rs with
  | nil => exact .nil
  | cons r rs ih => exact .cons (loads_route r) ih

def loadedPolicy (q : Policy) : Dict :=
  [("expires_at", .int q.expiresAt), ("issued_at", .int q.issuedAt),
   ("routes", .list (loadsElems (q.routes.map canonicalRoute))), ("schema", .int q.schema),
   ("tenant", .str q.tenant), ("version", .int q.version)]

theorem loads_canonical (q : Policy) : loads (canonicalJson q) = .dict (loadedPolicy q) := by
  rw [canonicalJson_eq]
  simp [loads, loadsFields, loadsField, setItem, Json.int, Json.intOf_intLit, loadedPolicy]

theorem reads_loaded (q : Policy) :
    Reads (loadedPolicy q) q (loadsElems (q.routes.map canonicalRoute)) :=
  ⟨by simp [loadedPolicy, List.lookup], by simp [loadedPolicy, List.lookup],
    by simp [loadedPolicy, List.lookup], by simp [loadedPolicy, List.lookup],
    by simp [loadedPolicy], by simp [loadedPolicy, List.lookup],
    mapM_routeOf (loads_routes q.routes)⟩

theorem accepted_loaded {q : Policy} {tenant : String} {now : Int} (h : Acceptable q tenant now)
    (hexp : now < q.expiresAt) : Accepted (loadedPolicy q) q tenant now :=
  ⟨by simp [keysAre, loadedPolicy, policyKeys], ⟨_, reads_loaded q, loads_routes q.routes⟩, h, hexp⟩

/-- The payload the verifier accepted, as the signer's language reads it. -/
theorem jsonLoads_canonical {q : Policy} (h : q.Legible) :
    jsonLoads (Gateway.canonical q) = some (.dict (loadedPolicy q)) := by
  have hover := over_canonical h
  have hparse := Json.parse_print (hover.mono (fun _ hc => hc.faithful))
  rw [canonical_plain h, jsonLoads, decode_utf8, if_pos rfl]
  rw [Json.plainText, hparse, Option.map_some, loads_canonical]

theorem append_newline_inj {as bs xs ys : Bytes} (ha : (10 : UInt8) ∉ as) (hb : (10 : UInt8) ∉ bs)
    (h : as ++ 10 :: xs = bs ++ 10 :: ys) : as = bs ∧ xs = ys := by
  induction as generalizing bs with
  | nil =>
    cases bs with
    | nil => exact ⟨rfl, (List.cons.inj h).2⟩
    | cons b bs => exact absurd (List.cons.inj h).1 (fun he => hb (by simp [he]))
  | cons a as ih =>
    cases bs with
    | nil => exact absurd (List.cons.inj h).1 (fun he => ha (by simp [← he]))
    | cons b bs =>
      obtain ⟨rfl, ht⟩ := List.cons.inj h
      obtain ⟨rfl, rfl⟩ := ih (fun hm => ha (List.mem_cons_of_mem _ hm))
        (fun hm => hb (List.mem_cons_of_mem _ hm)) ht
      exact ⟨rfl, rfl⟩

theorem identifier_bytes {k : String} (h : identifier k = true) :
    (10 : UInt8) ∉ ascii k := by
  have hspell := (identifier_spec h).1
  have hascii : Ascii k.toList := fun c hc => (hspell c hc).ascii
  rw [ascii, utf8_ascii hascii]
  intro hmem
  obtain ⟨c, hc, he⟩ := List.mem_map.mp hmem
  have hge := (hspell c hc).1
  have hlt := (hspell c hc).ascii
  have hnat : (UInt8.ofNat c.toNat).toNat = 10 := by rw [he]; rfl
  rw [UInt8.toNat_ofNat'] at hnat
  omega

/-- The key's name and the payload can be read off the signed bytes. -/
theorem signedBytes_inj {k k' : String} {b b' : Bytes} (hk : identifier k = true)
    (hk' : identifier k' = true) (h : signedBytes k b = signedBytes k' b') : k = k' ∧ b = b' := by
  have hn := identifier_bytes hk
  have hn' := identifier_bytes hk'
  have hnl : ascii "\n" = [10] := by decide
  simp only [signedBytes, List.append_assoc, List.append_cancel_left_eq, hnl,
    List.singleton_append] at h
  obtain ⟨hkeys, hb⟩ := append_newline_inj hn hn' h
  have hlist : k.toList = k'.toList := by
    rw [← decode_utf8 k.toList, ← decode_utf8 k'.toList]
    exact congrArg decodeUtf8 hkeys
  exact ⟨String.toList_inj.mp hlist, hb⟩

/-- Clock readings, in seconds, far from the ends of the 64-bit range. -/
def Reasonable (now : Int) : Prop := -4611686018427387904 ≤ now ∧ now < 4611686018427387904

instance : DecidablePred Reasonable := fun _ => inferInstanceAs (Decidable (_ ∧ _))

/-- What the verifier makes of a document the signer accepted. -/
theorem verifier_reads_signed {d : Dict} {tenant : String} {now : Int} (hd : Loaded d)
    (hnow : Reasonable now) (h : validatePolicy d tenant now = .ok d) :
    ∃ q, policyOf d = some q ∧ Accepted d q tenant now ∧ q.expiresAt ≤ 9223372036854775747 ∧
      strictJSON {} policyFields (Controlplane.canonical d) = some q ∧
      Gateway.canonical q = Controlplane.canonical d := by
  obtain ⟨-, q, hq⟩ := validatePolicy_ok h
  obtain ⟨vs, hr, -⟩ := hq.reads
  have hsize : q.expiresAt ≤ 9223372036854775747 := by
    have hi := hq.bounds.issued
    have hl := hq.bounds.lasts
    have hn := hnow.2
    omega
  have hleg := hq.bounds.legible (by omega)
  have hcanon := canonical_eq hd hq hleg
  exact ⟨q, policyOf_eq.mpr ⟨vs, hr⟩, hq, hsize, hcanon ▸ strictJSON_canonical hleg, hcanon.symm⟩

theorem signer_and_verifier_agree (ed : Ed25519) (tenant : String) (now : Int)
    (hnow : Reasonable now) :
    (∀ d, Loaded d → validatePolicy d tenant now = .ok d →
      ∃ q, policyOf d = some q ∧
        strictJSON {} policyFields (Controlplane.canonical d) = some q ∧
        Gateway.canonical q = Controlplane.canonical d ∧
        (∀ keyID seed, identifier keyID = true → seed.length = 32 →
          ∃ e, sign ed d keyID seed now = .ok e) ∧
        ∀ keyID seed clock e, sign ed d keyID seed clock = .ok e →
          ∀ s : PolicyStore, s.tenant = tenant → s.keys keyID = some (ed.publicKey seed) →
          ∀ g, q.issuedAt - 60 ≤ g → g < q.expiresAt →
            s.verify ed.verify (respond e) g false = .ok q) ∧
    (∀ (s : PolicyStore) raw q, s.tenant = tenant → s.verify ed.verify raw now false = .ok q →
      ∃ e b d, strictJSON {} envelopeFields raw = some e ∧
        Base64.decode e.payload.toList = some b ∧ jsonLoads b = some (.dict d) ∧
        validatePolicy d tenant now = .ok d ∧ policyOf d = some q) ∧
    (∀ d d' tenant' now' keyID keyID', Reasonable now' → Loaded d → Loaded d' →
      validatePolicy d tenant now = .ok d → validatePolicy d' tenant' now' = .ok d' →
      identifier keyID = true → identifier keyID' = true →
      signedBytes keyID (Controlplane.canonical d) = signedBytes keyID' (Controlplane.canonical d') →
      keyID = keyID' ∧ policyOf d = policyOf d') := by
  refine ⟨?_, ?_, ?_⟩
  · intro d hd h
    obtain ⟨q, hof, hacc, hsize, hdec, hcanon⟩ := verifier_reads_signed hd hnow h
    refine ⟨q, hof, hdec, hcanon, fun keyID seed => sign_of_accepted hacc, ?_⟩
    intro keyID seed clock e hsign s ht hkey g hlow hhigh
    have hb := hacc.bounds
    have hg : Acceptable q s.tenant g :=
      ⟨hb.schema, hb.tenant.trans ht.symm, hb.named, hb.version, ⟨hb.issued.1, by omega⟩, hb.lasts,
        hb.few, hb.routes⟩
    obtain ⟨hid, hseed, rfl⟩ := sign_ok hsign
    rw [← hcanon]
    exact verify_envelope hg (by omega) (by omega) hhigh hid hseed hkey
  · intro s raw q ht h
    obtain ⟨hacc, hexp⟩ := acceptable_of_verify (by have hn := hnow.1; omega) h
    obtain ⟨⟨e, key, sig, hc⟩, hdec, -, -⟩ := verify_ok_iff.mp h
    have hleg := hacc.legible (sized_of_strictJSON hdec).bounds.2.1
    have hexp : now < q.expiresAt := by simpa using hexp
    subst ht
    exact ⟨e, _, loadedPolicy q, hc.decodes, hc.payload, jsonLoads_canonical hleg,
      validatePolicy_of_accepted (accepted_loaded hacc hexp), policyOf_eq.mpr ⟨_, reads_loaded q⟩⟩
  · intro d d' tenant' now' keyID keyID' hnow' hd hd' h h' hk hk' hbytes
    obtain ⟨q, hof, -, -, hdec, -⟩ := verifier_reads_signed hd hnow h
    obtain ⟨q', hof', -, -, hdec', -⟩ := verifier_reads_signed hd' hnow' h'
    obtain ⟨hkey, hcanon⟩ := signedBytes_inj hk hk' hbytes
    rw [hcanon, hdec'] at hdec
    exact ⟨hkey, by rw [hof, hof', hdec]⟩

/-- A stand-in for the signature scheme: 64 copies of the message's length. -/
def lengths : Ed25519 where
  publicKey := id
  sign := fun _ m => List.replicate 64 (UInt8.ofNat m.length)
  verify := fun _ m s => s == List.replicate 64 (UInt8.ofNat m.length)
  verify_iff := by
    intro seed m s _
    exact beq_iff_eq
  sign_length := by
    intro seed m
    exact List.length_replicate

def acmeDocument : Dict :=
  loadsFields [] [("version", Json.int 7), ("schema", Json.int 1), ("tenant", .str "acme"),
    ("expires_at", Json.int 2000), ("issued_at", Json.int 1000),
    ("routes", .arr [.obj [("provider", .str "openai"), ("model", .str "gpt-4.1")]])]

def acmeStore : PolicyStore :=
  { tenant := "acme", keys := fun k => if k = "k1" then some (List.replicate 32 0) else none }

theorem signer_and_verifier_agree_acme :
    ∃ q e d, policyOf acmeDocument = some q ∧
      sign lengths acmeDocument "k1" (List.replicate 32 0) 1500 = .ok e ∧
      acmeStore.verify lengths.verify (respond e) 1500 false = .ok q ∧
      validatePolicy d "acme" 1500 = .ok d ∧ policyOf d = some q := by
  have hvalid : validatePolicy acmeDocument "acme" 1500 = .ok acmeDocument := by rfl
  obtain ⟨hforth, hback, -⟩ := signer_and_verifier_agree lengths "acme" 1500 (by decide)
  obtain ⟨q, hq, -, -, hsigns, hverifies⟩ := hforth acmeDocument ⟨_, rfl⟩ hvalid
  obtain ⟨e, he⟩ := hsigns "k1" (List.replicate 32 0) (by decide) (by decide)
  have hfields : 1000 = q.issuedAt ∧ 2000 = q.expiresAt := by
    obtain ⟨vs, hr⟩ := policyOf_eq.mp hq
    exact ⟨Py.int.inj (Option.some.inj hr.issued), Py.int.inj (Option.some.inj hr.expires)⟩
  have hv := hverifies "k1" _ _ e he acmeStore rfl rfl 1500 (by omega) (by omega)
  obtain ⟨-, -, d, -, -, -, hd, hdq⟩ := hback acmeStore _ q rfl hv
  exact ⟨q, e, d, hq, he, hv, hd, hdq⟩

end Switchboard.Proofs.Signer
