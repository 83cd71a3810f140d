import Switchboard.Proofs.Routes

namespace Switchboard.Proofs.Histograms
open Text Gateway Routes

/-- How many of the values are at most at the bound. -/
def upTo (vs : List Int) (b : Int) : Int := vs.countP (fun v => decide (v ≤ b))

theorem upTo_mono (vs : List Int) {a b : Int} (h : a ≤ b) : upTo vs a ≤ upTo vs b := by
  apply Int.ofNat_le.mpr
  apply List.countP_mono_left
  intro v _ hv
  simp only [decide_eq_true_eq] at hv ⊢
  exact hv.trans h

theorem upTo_le_length (vs : List Int) (b : Int) : upTo vs b ≤ vs.length :=
  Int.ofNat_le.mpr List.countP_le_length

/-- Whether a value belongs into bucket `i`: above the bound before it, and at most at its own. -/
def inBucket (bounds : List Int) (i : Nat) (v : Int) : Bool :=
  (match i with
    | 0 => true
    | j + 1 => (bounds[j]?).all (fun lo => decide (lo < v))) &&
  (bounds[i]?).all (fun hi => decide (v ≤ hi))

theorem upTo_sub (vs : List Int) {a b : Int} (h : a ≤ b) :
    upTo vs b - upTo vs a = vs.countP (fun v => decide (a < v) && decide (v ≤ b)) := by
  unfold upTo
  induction vs with
  | nil => rfl
  | cons v vs ih =>
    simp only [List.countP_cons, ← Int.not_lt (a := a)]
    by_cases hb : v ≤ b <;> by_cases ha : a < v <;> simp [hb, ha] <;> omega

theorem length_sub_upTo (vs : List Int) (a : Int) :
    vs.length - upTo vs a = vs.countP (fun v => decide (a < v)) := by
  unfold upTo
  induction vs with
  | nil => rfl
  | cons v vs ih =>
    simp only [List.countP_cons, List.length_cons, ← Int.not_lt]
    by_cases ha : a < v <;> simp [ha] <;> omega

/-- The counters of a distribution, from below the first bound to beyond the last. -/
theorem isChain_upTo (vs : List Int) {bounds : List Int} {a : Int}
    (h : (a :: bounds).Pairwise (· < ·)) :
    (upTo vs a :: (bounds.map (upTo vs) ++ [(vs.length : Int)])).IsChain (· ≤ ·) := by
  induction bounds generalizing a with
  | nil => simpa using upTo_le_length vs a
  | cons b bounds ih =>
    obtain ⟨hab, hrest⟩ := List.pairwise_cons.mp h
    rw [List.map_cons, List.cons_append, List.isChain_cons_cons]
    exact ⟨upTo_mono vs (hab b List.mem_cons_self).le, ih hrest⟩

/-- Where the counters do not fall, no difference is clamped: added up they are the counters. -/
theorem scanl_differencedFrom {prev count : Int} {cum : List Int}
    (h : (prev :: (cum ++ [count])).IsChain (· ≤ ·)) :
    (differencedFrom prev count cum).scanl (· + ·) prev = prev :: (cum ++ [count]) := by
  have hadd : ∀ {a b : Int}, a ≤ b → a + max (b - a) 0 = b := fun h => by omega
  induction cum generalizing prev with
  | nil =>
    have hle : prev ≤ count := by simpa using h
    simp [differencedFrom, hadd hle]
  | cons c cum ih =>
    rw [List.cons_append, List.isChain_cons_cons] at h
    rw [differencedFrom, List.scanl_cons, hadd h.1, ih h.2]
    rfl

theorem sum_differencedFrom {prev count : Int} {cum : List Int}
    (h : (prev :: (cum ++ [count])).IsChain (· ≤ ·)) :
    (differencedFrom prev count cum).sum = count - prev := by
  induction cum generalizing prev with
  | nil =>
    have hle : prev ≤ count := by simpa using h
    simp [differencedFrom, max_eq_left (Int.sub_nonneg.mpr hle)]
  | cons c cum ih =>
    rw [List.cons_append, List.isChain_cons_cons] at h
    rw [differencedFrom, List.sum_cons, ih h.2, max_eq_left (Int.sub_nonneg.mpr h.1)]
    omega

theorem differencedFrom_length (prev count : Int) (cum : List Int) :
    (differencedFrom prev count cum).length = cum.length + 1 := by
  induction cum generalizing prev with
  | nil => rfl
  | cons c cum ih => rw [differencedFrom, List.length_cons, ih, List.length_cons]

theorem getElem_differencedFrom (vs : List Int) {bounds : List Int} {a : Int}
    (h : (a :: bounds).Pairwise (· < ·)) {i : Nat} (hi : i ≤ bounds.length) :
    (differencedFrom (upTo vs a) vs.length (bounds.map (upTo vs)))[i]? =
      some (vs.countP (inBucket (a :: bounds) (i + 1)) : Int) := by
  induction bounds generalizing a i with
  | nil =>
    obtain rfl : i = 0 := by simpa using hi
    have hrest := length_sub_upTo vs a
    have hsame : inBucket [a] 1 = fun v => decide (a < v) := by
      funext v
      simp [inBucket]
    rw [hsame, ← hrest]
    simp [differencedFrom, upTo_le_length]
  | cons b bounds ih =>
    obtain ⟨hab, hrest⟩ := List.pairwise_cons.mp h
    have hle : a ≤ b := (hab b List.mem_cons_self).le
    cases i with
    | zero =>
      have hsame : inBucket (a :: b :: bounds) 1 = fun v => decide (a < v) && decide (v ≤ b) := by
        funext v
        simp [inBucket]
      rw [hsame, ← upTo_sub vs hle]
      simp [differencedFrom, upTo_mono vs hle]
    | succ i => exact ih hrest (by simpa using hi)

/-- The lines of the buckets: the bound that is printed, and the value. -/
def bucketLines (name : String) (lines : List Sample) : List (Option String × String) :=
  (lines.filter (fun s => s.name = name ++ "_bucket")).map (fun s => (s.labels.lookup "le", s.value))

/-- A data point and the lines of the exposition describe the distribution of the values. Both
surfaces write the bounds in their own way. -/
structure Describes (bounds : List Int) (unit : Int → ℚ) (format : Int → String) (vs : List Int)
    (d : Dist) (p : DataPoint) (lines : List (Option String × String)) : Prop where
  same_bounds : p.explicitBounds = bounds.map unit
  entries : ∃ ns : List Int, p.bucketCounts = ns.map Strings.itoa ∧ ns.length = bounds.length + 1 ∧
    (∀ i ≤ bounds.length, ns[i]? = some (vs.countP (inBucket bounds i) : Int)) ∧
    ns.sum = d.count ∧ p.count = Strings.itoa ns.sum ∧
    lines = ((bounds.map format ++ ["+Inf"]).map some).zip
      (((ns.scanl (· + ·) 0).drop 1).map Strings.itoa)
  unclamped : (0 :: (d.buckets ++ [d.count])).IsChain (· ≤ ·)

theorem isChain_distOf {b : Int} {bounds : List Int} (h : (b :: bounds).Pairwise (· < ·))
    (vs : List Int) :
    (0 :: ((b :: bounds).map (upTo vs) ++ [(vs.length : Int)])).IsChain (· ≤ ·) := by
  rw [List.map_cons, List.cons_append, List.isChain_cons_cons]
  exact ⟨Int.natCast_nonneg _, isChain_upTo vs h⟩

/-- The lines of a distribution are its counters. -/
theorem bucketLines_samples {name sum : String} {labels : List (String × String)}
    {texts : List String} {d : Dist} (hlen : texts.length = d.buckets.length)
    (hle : labels.lookup "le" = none) : bucketLines name (d.samples name labels texts sum) =
      ((texts ++ ["+Inf"]).map some).zip ((d.buckets ++ [d.count]).map Strings.itoa) := by
  have hlookup : ∀ b : String, (labels ++ [("le", b)]).lookup "le" = some b := by
    intro b
    rw [List.lookup_append, hle]
    rfl
  have hsum : name ++ "_sum" ≠ name ++ "_bucket" := by
    rw [Ne, String.append_right_inj]
    decide
  have hcount : name ++ "_count" ≠ name ++ "_bucket" := by
    rw [Ne, String.append_right_inj]
    decide
  have hbuckets : ∀ (bs : List String) (cs : List Int), bucketLines name
      (List.zipWith (fun b c => ⟨name ++ "_bucket", labels ++ [("le", b)], Strings.itoa c⟩) bs cs) =
      (bs.map some).zip (cs.map Strings.itoa) := by
    intro bs cs
    induction bs generalizing cs with
    | nil => rfl
    | cons b bs ih =>
      cases cs with
      | nil => rfl
      | cons c cs =>
        have h := ih cs
        simp only [bucketLines] at h ⊢
        simp [hlookup, h]
  have happend : ∀ xs ys, bucketLines name (xs ++ ys) = bucketLines name xs ++ bucketLines name ys := by
    intro xs ys
    simp [bucketLines]
  rw [Dist.samples, happend, hbuckets, List.map_append, List.map_append, List.zip_append (by simpa)]
  simp [bucketLines, hsum, hcount, hlookup]

variable {unit : Int → ℚ} {format : Int → String} {name sum : String}
  {labels : List (String × String)} {p : DataPoint}

theorem describes_distOf {b : Int} {bounds : List Int} (h : (b :: bounds).Pairwise (· < ·))
    (vs : List Int) (hbounds : p.explicitBounds = (b :: bounds).map unit)
    (hcounts : p.bucketCounts =
      differenced (distOf (b :: bounds) vs).buckets (distOf (b :: bounds) vs).count)
    (hcount : p.count = Strings.itoa (distOf (b :: bounds) vs).count)
    (hle : labels.lookup "le" = none) :
    Describes (b :: bounds) unit format vs (distOf (b :: bounds) vs) p
      (bucketLines name
        ((distOf (b :: bounds) vs).samples name labels ((b :: bounds).map format) sum)) := by
  have hbuckets : (distOf (b :: bounds) vs).buckets = (b :: bounds).map (upTo vs) :=
    distOf_buckets _ _
  have hlines : bucketLines name
      ((distOf (b :: bounds) vs).samples name labels ((b :: bounds).map format) sum) = _ :=
    bucketLines_samples (by simp [hbuckets]) hle
  have hchain := isChain_distOf h vs
  rw [hbuckets, distOf_count] at hlines hcounts
  rw [distOf_count] at hcount
  have htotal := sum_differencedFrom hchain
  rw [Int.sub_zero] at htotal
  refine ⟨hbounds, ⟨differencedFrom 0 vs.length ((b :: bounds).map (upTo vs)), hcounts,
    ?_, ?_, ?_, ?_, ?_⟩, ?_⟩
  · rw [differencedFrom_length, List.length_map]
  · intro i hi
    cases i with
    | zero =>
      have hsame : inBucket (b :: bounds) 0 = fun v => decide (v ≤ b) := by
        funext v
        simp [inBucket]
      rw [hsame]
      simp [differencedFrom, upTo]
    | succ i => exact getElem_differencedFrom vs h (by simpa using hi)
  · rw [htotal, distOf_count]
  · rw [htotal, hcount]
  · rw [scanl_differencedFrom hchain]
    exact hlines
  · rw [hbuckets, distOf_count]
    exact hchain

theorem lookup_labels (k : RouteKey) (withError : Bool) :
    (k.labels withError).lookup "le" = none := by
  unfold RouteKey.labels
  split <;> split <;> simp [List.lookup]

/-- A data point and lines of the exposition are among those that are exported. -/
structure Exported (t : RouteTable) (time start : String) (metric : String) (p : DataPoint)
    (lines : List Sample) : Prop where
  point : ∃ h ∈ routeHistograms t time start, h.name = metric ∧ p ∈ h.dataPoints
  lines : ∀ s ∈ lines, Line.sample s ∈ writeHistograms t

section
variable {t : RouteTable} {k : RouteKey} {a : RouteLatency} (h : (k, a) ∈ t.snapshot)
  (time start : String)
include h

theorem exported_duration : Exported t time start "gen_ai.server.request.duration"
    (durationPoint start time k a) (durationSamples k a) := by
  have hne : t.snapshot ≠ [] := List.ne_nil_of_mem h
  constructor
  · rw [routeHistograms, if_neg hne]
    exact ⟨_, List.mem_cons_self, rfl, List.mem_map_of_mem h⟩
  · intro s hs
    rw [← mem_samplesOf, samplesOf_writeHistograms]
    apply List.mem_append_left
    exact List.mem_flatMap.mpr ⟨_, mem_sorted.mpr h, hs⟩

theorem exported_tokens (τ : TokenType) (hcount : (τ.dist a).count ≠ 0) :
    Exported t time start "gen_ai.client.token.usage"
      (tokenPoint start time k (τ.label, τ.dist a)) (tokenLines k (τ.label, τ.dist a)) := by
  have hne : t.snapshot ≠ [] := List.ne_nil_of_mem h
  have hd : (τ.label, τ.dist a) ∈ a.tokens.filter (fun d => d.2.count != 0) := by
    rw [List.mem_filter, mem_tokens]
    exact ⟨⟨τ, rfl⟩, by simpa using hcount⟩
  constructor
  · have hp : tokenPoint start time k (τ.label, τ.dist a) ∈
        t.snapshot.flatMap (fun e => tokenPoints start time e.1 e.2) :=
      List.mem_flatMap.mpr ⟨_, h, List.mem_map_of_mem hd⟩
    rw [routeHistograms, if_neg hne]
    simp only [if_neg (List.ne_nil_of_mem hp)]
    exact ⟨_, List.mem_cons_of_mem _ List.mem_cons_self, rfl, hp⟩
  · intro s hs
    rw [← mem_samplesOf, samplesOf_writeHistograms]
    apply List.mem_append_right
    exact List.mem_flatMap.mpr ⟨_, mem_sorted.mpr h, List.mem_flatMap.mpr ⟨_, hd, hs⟩⟩

end

theorem describes_duration (cs : List RouteObservation) (k : RouteKey) (start time : String) :
    Describes latencyBounds (fun b => (b : ℚ) / 1000) formatSeconds (cs.map (·.ms))
      (aggregate cs).latency (durationPoint start time k (aggregate cs))
      (bucketLines durationName (durationSamples k (aggregate cs))) := by
  unfold durationSamples
  rw [aggregate_latency]
  apply describes_distOf
  · decide
  · rfl
  · exact congrArg (fun d : Dist => differenced d.buckets d.count) (aggregate_latency cs)
  · exact congrArg (fun d : Dist => Strings.itoa d.count) (aggregate_latency cs)
  · exact lookup_labels k true

theorem describes_tokens (τ : TokenType) (cs : List RouteObservation) (k : RouteKey)
    (start time : String) :
    Describes tokenBounds (fun b => (b : ℚ)) Strings.itoa (tokensOf τ cs) (τ.dist (aggregate cs))
      (tokenPoint start time k (τ.label, τ.dist (aggregate cs)))
      (bucketLines tokenName (tokenLines k (τ.label, τ.dist (aggregate cs)))) := by
  unfold tokenLines
  rw [aggregate_tokens]
  apply describes_distOf
  · decide
  · rfl
  · rfl
  · rfl
  · rw [List.lookup_append, lookup_labels]
    rfl

/-- Both surfaces describe the distribution of what was measured under a key: the buckets of one
hold the values between two bounds, and added up they are what the other prints. -/
theorem surfaces_describe_one_distribution (calls : List RouteObservation) (time start : String)
    (k : RouteKey) (a : RouteLatency)
    (h : (k, a) ∈ (observedAll (some routeMaxKeys) calls).snapshot) :
    (Describes latencyBounds (fun b => (b : ℚ) / 1000) formatSeconds
        ((under (some routeMaxKeys) k calls).map (·.ms)) a.latency (durationPoint start time k a)
        (bucketLines durationName (durationSamples k a)) ∧
      Exported (observedAll (some routeMaxKeys) calls) time start "gen_ai.server.request.duration"
        (durationPoint start time k a) (durationSamples k a)) ∧
    ∀ τ : TokenType,
      Describes tokenBounds (fun b => (b : ℚ)) Strings.itoa
        (tokensOf τ (under (some routeMaxKeys) k calls)) (τ.dist a)
        (tokenPoint start time k (τ.label, τ.dist a))
        (bucketLines tokenName (tokenLines k (τ.label, τ.dist a))) ∧
      ((τ.dist a).count ≠ 0 →
        Exported (observedAll (some routeMaxKeys) calls) time start "gen_ai.client.token.usage"
          (tokenPoint start time k (τ.label, τ.dist a)) (tokenLines k (τ.label, τ.dist a))) := by
  obtain rfl := aggregate_of_mem_snapshot h
  refine ⟨⟨describes_duration _ k start time, exported_duration h time start⟩, ?_⟩
  intro τ
  exact ⟨describes_tokens τ _ k start time, exported_tokens h time start τ⟩

/-- A value at a bound, and one beyond the last. -/
def edges : List RouteObservation :=
  [⟨"openai", "m", 200, 5, { input := 1 }⟩, ⟨"openai", "m", 200, 90001, {}⟩]

theorem surfaces_describe_one_distribution_edges :
    (⟨"openai", "m", ""⟩, aggregate edges) ∈ (observedAll (some routeMaxKeys) edges).snapshot ∧
    ∃ p lines, Describes latencyBounds (fun b => (b : ℚ) / 1000) formatSeconds [5, 90001]
      (aggregate edges).latency p lines := by
  have h : (⟨"openai", "m", ""⟩, aggregate edges) ∈
      (observedAll (some routeMaxKeys) edges).snapshot := by decide
  exact ⟨h, _, _, (surfaces_describe_one_distribution _ "2" "1" _ _ h).1.1⟩

end Switchboard.Proofs.Histograms
