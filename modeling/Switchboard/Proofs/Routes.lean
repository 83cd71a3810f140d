import Switchboard.Gateway.Metrics

namespace Switchboard.Proofs.Routes
open Text Gateway
open Effect (Prog)

/-- Every pointer of the table leads somewhere, and no two lead to the same place. -/
structure Sane (t : RouteTable) : Prop where
  bound : ∀ k r, t.m.lookup k = some r → r < t.heap.length
  apart : ∀ k k' r, t.m.lookup k = some r → t.m.lookup k' = some r → k = k'

theorem sane_empty : Sane {} := by
  constructor
  · intro k r h
    cases h
  · intro k k' r h
    cases h

/-- The measurements of a key, if it has any. -/
def measures (t : RouteTable) (k : RouteKey) : Option RouteLatency :=
  (t.m.lookup k).map (fun r => t.heap.getD r {})

/-- No model may be added. -/
def full (maxKeys : Option Nat) (t : RouteTable) : Bool :=
  maxKeys.any (fun n => decide (n ≤ t.m.size))

/-- The key that a request is measured under: its own, or the one without its model. -/
def keyFor (maxKeys : Option Nat) (t : RouteTable) (k : RouteKey) : RouteKey :=
  if t.m.lookup k = none ∧ full maxKeys t = true ∧ k.model ≠ "" then { k with model := "" } else k

section
variable {maxKeys : Option Nat} {t : RouteTable}

theorem lookup_create {k k' : RouteKey} :
    (t.create k).2.m.lookup k' = if k' = k then some t.heap.length else t.m.lookup k' := by
  unfold RouteTable.create
  split
  · rename_i h
    subst h
    exact AList.lookup_insert _
  · rename_i h
    exact AList.lookup_insert_ne h

theorem Sane.create (h : Sane t) (k : RouteKey) : Sane (t.create k).2 := by
  have hlen : (t.create k).2.heap.length = t.heap.length + 1 := by simp [RouteTable.create]
  constructor
  · intro k' r hr
    rw [lookup_create] at hr
    rw [hlen]
    split at hr
    · cases hr
      omega
    · have := h.bound k' r hr
      omega
  · intro k₁ k₂ r h₁ h₂
    rw [lookup_create] at h₁ h₂
    split at h₁ <;> split at h₂
    · simp_all
    · cases h₁
      have := h.bound k₂ _ h₂
      omega
    · cases h₂
      have := h.bound k₁ _ h₁
      omega
    · exact h.apart k₁ k₂ r h₁ h₂

theorem measures_create (h : Sane t) (k k' : RouteKey) :
    measures (t.create k).2 k' = if k' = k then some {} else measures t k' := by
  unfold measures
  rw [lookup_create]
  split
  · simp [RouteTable.create, List.getD_eq_getElem?_getD]
  · cases hr : t.m.lookup k' with
    | none => rfl
    | some r =>
      have hlt := h.bound k' r hr
      simp [RouteTable.create, List.getD_eq_getElem?_getD, List.getElem?_append_left hlt]

/-- A fold is counted. -/
def counted (maxKeys : Option Nat) (t : RouteTable) (k : RouteKey) : RouteTable :=
  { t with folded := t.folded + if keyFor maxKeys t k = k then 0 else 1 }

/-- What `get` does with the write lock: it leads to the measurements of the key, which it may
have to make. -/
theorem getLocked_eq (k : RouteKey) : t.getLocked maxKeys k =
    match t.m.lookup (keyFor maxKeys t k) with
    | some r => (r, counted maxKeys t k)
    | none => (counted maxKeys t k).create (keyFor maxKeys t k) := by
  unfold RouteTable.getLocked counted
  cases hk : t.m.lookup k with
  | some r =>
    have hsame : keyFor maxKeys t k = k := if_neg (fun h => by simp [hk] at h)
    generalize keyFor maxKeys t k = k' at hsame
    subst hsame
    simp [hk]
  | none =>
    by_cases hf : full maxKeys t = true ∧ k.model ≠ ""
    · have hfold : keyFor maxKeys t k = { k with model := "" } := if_pos ⟨hk, hf⟩
      have hne : ({ k with model := "" } : RouteKey) ≠ k := by
        intro h
        exact hf.2 (congrArg RouteKey.model h).symm
      generalize keyFor maxKeys t k = k' at hfold
      subst hfold
      simp only [hne, if_false]
      exact if_pos hf
    · have hsame : keyFor maxKeys t k = k := if_neg (fun h => hf h.2)
      generalize keyFor maxKeys t k = k' at hsame
      subst hsame
      simp only [hk, if_true, Int.add_zero]
      exact if_neg hf

/-- A key with a model is added only while there is room. -/
theorem room_of_fresh {k : RouteKey} (hfresh : t.m.lookup (keyFor maxKeys t k) = none)
    (hmodel : (keyFor maxKeys t k).model ≠ "") : full maxKeys t = false := by
  unfold keyFor at hfresh hmodel
  split at hmodel
  · exact absurd rfl hmodel
  · rename_i hn
    rw [if_neg hn] at hfresh
    by_contra hfull
    exact hn ⟨hfresh, by simpa using hfull, hmodel⟩

theorem Sane.counted (h : Sane t) (k : RouteKey) : Sane (counted maxKeys t k) :=
  ⟨h.bound, h.apart⟩

theorem Sane.getLocked (h : Sane t) (k : RouteKey) : Sane (t.getLocked maxKeys k).2 := by
  rw [getLocked_eq]
  split
  · exact h.counted k
  · exact (h.counted k).create _

theorem lookup_getLocked (k k' : RouteKey) : (t.getLocked maxKeys k).2.m.lookup k' =
    if k' = keyFor maxKeys t k then some (t.getLocked maxKeys k).1 else t.m.lookup k' := by
  rw [getLocked_eq]
  split
  · rename_i r hr
    split
    · rename_i hk
      rw [hk]
      exact hr
    · rfl
  · exact lookup_create

/-- The measurements that are new are empty, and the others are as they were. -/
theorem measures_getLocked (h : Sane t) (k k' : RouteKey) :
    measures (t.getLocked maxKeys k).2 k' =
      if k' = keyFor maxKeys t k then some ((measures t k').getD {}) else measures t k' := by
  rw [getLocked_eq]
  split
  · rename_i r hr
    split
    · rename_i hk
      subst hk
      simp [measures, counted, hr]
    · rfl
  · rename_i hr
    rw [measures_create (h.counted k)]
    split
    · rename_i hk
      subst hk
      simp [measures, hr]
    · rfl

theorem Sane.record (h : Sane t) (r : Nat) (c : RouteObservation) : Sane (t.record r c) := by
  constructor
  · intro k r' hr
    rw [RouteTable.record, List.length_modify]
    exact h.bound k r' hr
  · exact h.apart

/-- Recording changes the measurements of one key. -/
theorem measures_record (h : Sane t) {k : RouteKey} {r : Nat} (hr : t.m.lookup k = some r)
    (c : RouteObservation) (k' : RouteKey) : measures (t.record r c) k' =
      if k' = k then (measures t k).map (·.observe c) else measures t k' := by
  have hlt := h.bound k r hr
  split
  · rename_i hk
    subst hk
    simp [measures, RouteTable.record, hr, List.getD_eq_getElem?_getD, List.getElem?_modify, hlt]
  · rename_i hk
    unfold measures
    cases hr' : t.m.lookup k' with
    | none => simp [RouteTable.record, hr']
    | some r' =>
      have hne : r ≠ r' := fun e => hk (h.apart k' k r (e ▸ hr') hr)
      simp [RouteTable.record, hr', List.getD_eq_getElem?_getD, List.getElem?_modify, hne]

/-- A request that is measured alone. -/
theorem observed_eq (c : RouteObservation) : t.observed maxKeys c =
    (t.getLocked maxKeys c.key).2.record (t.getLocked maxKeys c.key).1 c := by
  have hfound : (routeDriver maxKeys).perform t (.lookup c.key) () = some (t.m.lookup c.key, t) := rfl
  unfold RouteTable.observed observeRoute getRoute
  rw [Prog.bind_assoc, Effect.Driver.exec_call hfound]
  cases hk : t.m.lookup c.key with
  | none => rfl
  | some r =>
    have hgot : t.getLocked maxKeys c.key = (r, t) := by simp [RouteTable.getLocked, hk]
    rw [hgot]
    rfl

theorem Sane.observed (h : Sane t) (c : RouteObservation) : Sane (t.observed maxKeys c) := by
  rw [observed_eq]
  exact (h.getLocked c.key).record _ c

theorem measures_observed (h : Sane t) (c : RouteObservation) (k : RouteKey) :
    measures (t.observed maxKeys c) k =
      if k = keyFor maxKeys t c.key then some (((measures t k).getD {}).observe c)
      else measures t k := by
  have hleads : (t.getLocked maxKeys c.key).2.m.lookup (keyFor maxKeys t c.key) =
      some (t.getLocked maxKeys c.key).1 := by rw [lookup_getLocked, if_pos rfl]
  rw [observed_eq, measures_record (h.getLocked c.key) hleads, measures_getLocked h,
    measures_getLocked h, if_pos rfl]
  split
  · rename_i hk
    rw [hk]
    rfl
  · rfl

end

/-- The requests that were measured under a key, of a sequence of them, the last one first. -/
def under (maxKeys : Option Nat) (k : RouteKey) : List RouteObservation → List RouteObservation
  | [] => []
  | c :: past =>
    if keyFor maxKeys (observedAll maxKeys past) c.key = k then c :: under maxKeys k past
    else under maxKeys k past

/-- The two kinds of tokens that are measured. -/
inductive TokenType where
  | input
  | output
deriving DecidableEq, Repr

namespace TokenType

def label : TokenType → String
  | input => "input"
  | output => "output"

def dist (r : RouteLatency) : TokenType → Dist
  | input => r.input
  | output => r.output

def stated (u : TokenUsage) : TokenType → Int
  | input => u.input
  | output => u.output

end TokenType

theorem mem_tokens {r : RouteLatency} {d : String × Dist} :
    d ∈ r.tokens ↔ ∃ τ : TokenType, d = (τ.label, τ.dist r) := by
  constructor
  · intro h
    rcases List.mem_pair.mp h with h | h
    · exact ⟨.input, h⟩
    · exact ⟨.output, h⟩
  · rintro ⟨τ, h⟩
    cases τ
    · exact List.mem_pair.mpr (.inl h)
    · exact List.mem_pair.mpr (.inr h)

/-- The measurements of some requests. -/
def aggregate : List RouteObservation → RouteLatency
  | [] => {}
  | c :: past => (aggregate past).observe c

/-- A distribution of these values, the last one first. -/
def distOf (bounds : List Int) : List Int → Dist
  | [] => newDist bounds
  | v :: vs => (distOf bounds vs).observe bounds v

theorem distOf_count (bounds vs : List Int) : (distOf bounds vs).count = vs.length := by
  induction vs with
  | nil => rfl
  | cons v vs ih =>
    rw [distOf, Dist.observe, ih, List.length_cons]
    push_cast
    rfl

theorem distOf_buckets (bounds vs : List Int) : (distOf bounds vs).buckets =
    bounds.map (fun b => (vs.countP (fun v => decide (v ≤ b)) : Int)) := by
  induction vs with
  | nil => rfl
  | cons v vs ih =>
    rw [distOf, Dist.observe, ih, List.zipWith_map_right, List.zipWith_self]
    refine List.map_congr_left (fun b _ => ?_)
    rw [List.countP_cons]
    by_cases hb : v ≤ b <;> simp [hb]

theorem aggregate_latency (cs : List RouteObservation) :
    (aggregate cs).latency = distOf latencyBounds (cs.map (·.ms)) := by
  induction cs with
  | nil => rfl
  | cons c past ih =>
    rw [List.map_cons, distOf, ← ih, aggregate, RouteLatency.observe]
    split <;> rfl

/-- The tokens that the providers stated. -/
def tokensOf (τ : TokenType) (cs : List RouteObservation) : List Int :=
  (cs.filter (fun c => decide (c.usage.input ≠ 0 ∨ c.usage.output ≠ 0))).map (τ.stated ·.usage)

theorem aggregate_tokens (τ : TokenType) (cs : List RouteObservation) :
    τ.dist (aggregate cs) = distOf tokenBounds (tokensOf τ cs) := by
  induction cs with
  | nil => cases τ <;> rfl
  | cons c past ih =>
    unfold tokensOf at ih ⊢
    rw [aggregate, RouteLatency.observe, List.filter_cons]
    by_cases h : c.usage.input ≠ 0 ∨ c.usage.output ≠ 0
    · simp only [h, decide_true, if_true, List.map_cons, distOf, ← ih]
      cases τ <;> rfl
    · simp only [h, decide_false, if_false, Bool.false_eq_true, ← ih]
      cases τ <;> rfl

theorem sane_observedAll (maxKeys : Option Nat) (cs : List RouteObservation) :
    Sane (observedAll maxKeys cs) := by
  induction cs with
  | nil => exact sane_empty
  | cons c past ih => exact ih.observed c

/-- A key has the measurements of the requests that were measured under it. -/
theorem measures_observedAll (maxKeys : Option Nat) (cs : List RouteObservation) (k : RouteKey) :
    measures (observedAll maxKeys cs) k =
      if under maxKeys k cs = [] then none else some (aggregate (under maxKeys k cs)) := by
  induction cs with
  | nil => rfl
  | cons c past ih =>
    rw [observedAll, measures_observed (sane_observedAll maxKeys past), under, ih]
    by_cases hk : keyFor maxKeys (observedAll maxKeys past) c.key = k
    · rw [if_pos hk, if_pos hk.symm, if_neg (List.cons_ne_nil _ _), aggregate]
      split
      · rename_i hnone
        rw [hnone]
        rfl
      · rfl
    · rw [if_neg hk, if_neg (fun h => hk h.symm)]

/-- What is exported of a table are the measurements of its keys. -/
theorem mem_snapshot {t : RouteTable} {k : RouteKey} {a : RouteLatency} :
    (k, a) ∈ t.snapshot ↔ measures t k = some a := by
  unfold RouteTable.snapshot measures
  rw [List.mem_map, Option.map_eq_some_iff]
  constructor
  · rintro ⟨⟨k', r⟩, hmem, heq⟩
    cases heq
    exact ⟨r, AList.mem_lookup_iff.mpr hmem, rfl⟩
  · rintro ⟨r, hr, heq⟩
    exact ⟨⟨k, r⟩, AList.mem_lookup_iff.mp hr, by rw [heq]⟩

/-- The measurements that are exported are those of the requests under the key. -/
theorem aggregate_of_mem_snapshot {maxKeys : Option Nat} {cs : List RouteObservation} {k : RouteKey}
    {a : RouteLatency} (h : (k, a) ∈ (observedAll maxKeys cs).snapshot) :
    a = aggregate (under maxKeys k cs) := by
  rw [mem_snapshot, measures_observedAll] at h
  split at h
  · cases h
  · exact (Option.some.inj h).symm

theorem snapshot_keys (t : RouteTable) : t.snapshot.map Prod.fst = t.m.keys := by
  unfold RouteTable.snapshot
  rw [List.map_map]
  rfl

theorem snapshot_nodup (t : RouteTable) : t.snapshot.Nodup := by
  apply List.Nodup.of_map Prod.fst
  rw [snapshot_keys]
  exact t.m.keys_nodup

/-- The routes in the order of the exposition. -/
def sorted (t : RouteTable) : List (RouteKey × RouteLatency) :=
  t.snapshot.mergeSort (fun a b => !b.1.before a.1)

theorem mem_sorted {t : RouteTable} {e : RouteKey × RouteLatency} :
    e ∈ sorted t ↔ e ∈ t.snapshot := (List.mergeSort_perm _ _).mem_iff

theorem sorted_nodup (t : RouteTable) : (sorted t).Nodup :=
  (List.mergeSort_perm _ _).nodup_iff.mpr (snapshot_nodup t)

theorem snapshot_key_inj {t : RouteTable} {e e' : RouteKey × RouteLatency} (he : e ∈ t.snapshot)
    (he' : e' ∈ t.snapshot) (hne : e ≠ e') : e.1 ≠ e'.1 := by
  intro h
  rw [← Prod.mk.eta (p := e), mem_snapshot] at he
  rw [← Prod.mk.eta (p := e'), mem_snapshot, ← h, he] at he'
  exact hne (Prod.ext h (Option.some.inj he'))

/-- The lines that state a value. -/
def samplesOf (lines : List Line) : List Sample :=
  lines.filterMap (fun l => match l with
    | .kind _ => none
    | .sample s => some s)

theorem mem_samplesOf {lines : List Line} {s : Sample} :
    s ∈ samplesOf lines ↔ .sample s ∈ lines := by
  unfold samplesOf
  rw [List.mem_filterMap]
  constructor
  · rintro ⟨l, hl, hs⟩
    cases l with
    | kind name => cases hs
    | sample s' =>
      cases hs
      exact hl
  · intro h
    exact ⟨_, h, rfl⟩

theorem samplesOf_map (ss : List Sample) : samplesOf (ss.map .sample) = ss := by
  unfold samplesOf
  rw [List.filterMap_map]
  exact List.filterMap_some

theorem samplesOf_writeHistograms (t : RouteTable) : samplesOf (writeHistograms t) =
    (sorted t).flatMap (fun e => durationSamples e.1 e.2) ++
    (sorted t).flatMap (fun e => tokenSamples e.1 e.2) := by
  unfold writeHistograms
  change samplesOf (if sorted t = [] then [] else _) = _
  split
  · rename_i h
    rw [h]
    rfl
  · have happend : ∀ xs ys, samplesOf (xs ++ ys) = samplesOf xs ++ samplesOf ys :=
      fun xs ys => List.filterMap_append
    have hkind : ∀ name lines, samplesOf (.kind name :: lines) = samplesOf lines := fun _ _ => rfl
    rw [happend, hkind, samplesOf_map]
    congr 1
    split
    · rename_i h
      exact h.symm
    · rw [hkind, samplesOf_map]
      rfl

theorem mem_under {maxKeys : Option Nat} {k : RouteKey} {cs : List RouteObservation}
    {c : RouteObservation} (h : c ∈ under maxKeys k cs) : c ∈ cs ∧ k.provider = c.provider := by
  induction cs with
  | nil => cases h
  | cons d past ih =>
    rw [under] at h
    split at h
    · rename_i hk
      rcases List.mem_cons.mp h with rfl | h
      · refine ⟨List.mem_cons_self, ?_⟩
        rw [← hk, keyFor]
        split <;> rfl
      · exact ⟨List.mem_cons_of_mem _ (ih h).1, (ih h).2⟩
    · exact ⟨List.mem_cons_of_mem _ (ih h).1, (ih h).2⟩

/-- A key under which a request was measured is exported. -/
theorem mem_snapshot_of_under {maxKeys : Option Nat} {k : RouteKey} {cs : List RouteObservation}
    {p : RouteObservation → Prop} (h : ∃ c ∈ under maxKeys k cs, p c) :
    (k, aggregate (under maxKeys k cs)) ∈ (observedAll maxKeys cs).snapshot := by
  obtain ⟨c, hc, -⟩ := h
  rw [mem_snapshot, measures_observedAll, if_neg (List.ne_nil_of_mem hc)]

theorem provider_of_mem_snapshot {maxKeys : Option Nat} {cs : List RouteObservation}
    {e : RouteKey × RouteLatency} (h : e ∈ (observedAll maxKeys cs).snapshot) :
    ∃ c ∈ cs, e.1.provider = c.provider := by
  rw [← Prod.mk.eta (p := e), mem_snapshot, measures_observedAll] at h
  split at h
  · cases h
  · rename_i hne
    obtain ⟨c, hc⟩ := List.exists_mem_of_ne_nil _ hne
    exact ⟨c, mem_under hc⟩

end Switchboard.Proofs.Routes
