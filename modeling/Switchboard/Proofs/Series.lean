import Switchboard.Proofs.Routes

namespace Switchboard.Proofs.Series
open Text Gateway Routes

/-- The same pairs, in any order. -/
def SameSet (xs ys : List (String × String)) : Prop := ∀ p, p ∈ xs ↔ p ∈ ys

theorem SameSet.symm {xs ys : List (String × String)} (h : SameSet xs ys) : SameSet ys xs :=
  fun p => (h p).symm

/-- The names under which a surface describes a key. -/
structure Names where
  operation : String
  provider : String
  model : String
  error : String

def Names.all (n : Names) : List String := [n.operation, n.provider, n.model, n.error]

def labelNames : Names :=
  ⟨"gen_ai_operation_name", "gen_ai_provider_name", "gen_ai_request_model", "error_type"⟩

def attrNames : Names :=
  ⟨"gen_ai.operation.name", "gen_ai.provider.name", "gen_ai.request.model", "error.type"⟩

def describe (n : Names) (k : RouteKey) (withError : Bool) : List (String × String) :=
  [(n.operation, (semconvOf k.provider).operation), (n.provider, (semconvOf k.provider).provider)] ++
  (if k.model ≠ "" then [(n.model, k.model)] else []) ++
  (if withError ∧ k.errorType ≠ "" then [(n.error, k.errorType)] else [])

theorem labels_eq (k : RouteKey) (withError : Bool) :
    k.labels withError = describe labelNames k withError := rfl

section
variable {n : Names} (hn : n.all.Nodup) {k k' : RouteKey} {withError : Bool}
  {x x' : List (String × String)} (hx : ∀ p ∈ x, p.1 ∉ n.all) (hx' : ∀ p ∈ x', p.1 ∉ n.all)

theorem mem_describe {p : String × String} : p ∈ describe n k withError ↔
    p = (n.operation, (semconvOf k.provider).operation) ∨
    p = (n.provider, (semconvOf k.provider).provider) ∨
    (k.model ≠ "" ∧ p = (n.model, k.model)) ∨
    (withError = true ∧ k.errorType ≠ "" ∧ p = (n.error, k.errorType)) := by
  unfold describe
  by_cases hm : k.model = "" <;> by_cases he : withError = true ∧ k.errorType ≠ "" <;>
    simp [hm, he, and_assoc] <;> tauto

include hn hx

theorem provider_mem (v : String) : (n.provider, v) ∈ describe n k withError ++ x ↔
    v = (semconvOf k.provider).provider := by
  have hout : (n.provider, v) ∉ x := fun h => hx _ h (by simp [Names.all])
  simp only [Names.all, List.nodup_cons, List.mem_cons, not_or] at hn
  simp [mem_describe, hout, Ne.symm hn.1.1, hn.2.1]

theorem model_mem (v : String) : (n.model, v) ∈ describe n k withError ++ x ↔
    k.model ≠ "" ∧ v = k.model := by
  have hout : (n.model, v) ∉ x := fun h => hx _ h (by simp [Names.all])
  simp only [Names.all, List.nodup_cons, List.mem_cons, not_or] at hn
  simp [mem_describe, hout, Ne.symm hn.1.2.1, Ne.symm hn.2.1.1, hn.2.2.1]

theorem error_mem (v : String) : (n.error, v) ∈ describe n k withError ++ x ↔
    withError = true ∧ k.errorType ≠ "" ∧ v = k.errorType := by
  have hout : (n.error, v) ∉ x := fun h => hx _ h (by simp [Names.all])
  simp only [Names.all, List.nodup_cons, List.mem_cons, not_or] at hn
  simp [mem_describe, hout, Ne.symm hn.1.2.2.1, Ne.symm hn.2.1.2.1, Ne.symm hn.2.2.1.1]

omit hn hx in
theorem extra_mem {p : String × String} (hp : p.1 ∉ n.all) :
    p ∈ describe n k withError ++ x ↔ p ∈ x := by
  have hout : p ∉ describe n k withError := by
    rw [mem_describe]
    rintro (rfl | rfl | ⟨-, rfl⟩ | ⟨-, -, rfl⟩) <;> simp [Names.all] at hp
  simp [hout]

omit hn hx in
/-- A text that is only stated where it is not empty. -/
theorem eq_of_stated {s s' : String} (h : ∀ v, s ≠ "" ∧ v = s ↔ s' ≠ "" ∧ v = s') : s = s' := by
  by_cases hs : s = ""
  · by_contra hne
    exact ((h s').mpr ⟨fun h' => hne (hs.trans h'.symm), rfl⟩).1 hs
  · exact ((h s).mp ⟨hs, rfl⟩).2

include hx' in
/-- Equal descriptions are descriptions of the same. -/
theorem describe_inj (h : SameSet (describe n k withError ++ x) (describe n k' withError ++ x')) :
    (semconvOf k.provider).provider = (semconvOf k'.provider).provider ∧ k.model = k'.model ∧
      (withError = true → k.errorType = k'.errorType) ∧ SameSet x x' := by
  refine ⟨?_, ?_, ?_, ?_⟩
  · have hp := h (n.provider, (semconvOf k.provider).provider)
    rw [provider_mem hn hx, provider_mem hn hx'] at hp
    exact hp.mp rfl
  · apply eq_of_stated
    intro v
    rw [← model_mem hn hx v, ← model_mem hn hx' v]
    exact h (n.model, v)
  · intro he
    apply eq_of_stated
    intro v
    have hv := h (n.error, v)
    rw [error_mem hn hx, error_mem hn hx'] at hv
    simpa [he] using hv
  · intro p
    by_cases hp : p.1 ∈ n.all
    · exact ⟨fun h' => absurd hp (hx p h'), fun h' => absurd hp (hx' p h')⟩
    · have hv := h p
      rwa [extra_mem hp, extra_mem hp] at hv

end

def providers : List String := ["openai", "anthropic", "gemini", "bedrock"]

theorem semconvOf_inj {p q : String} (hp : p ∈ providers) (hq : q ∈ providers)
    (h : (semconvOf p).provider = (semconvOf q).provider) : p = q := by
  have hall : ∀ p ∈ providers, ∀ q ∈ providers,
      (semconvOf p).provider = (semconvOf q).provider → p = q := by decide
  exact hall p hp q hq h

/-- Two lines that state a value of the same series. -/
def Clashing (s s' : Sample) : Prop := s.name = s'.name ∧ SameSet s.labels s'.labels

theorem Clashing.symm {s s' : Sample} (h : Clashing s s') : Clashing s' s :=
  ⟨h.1.symm, h.2.symm⟩

/-- What tells the lines of a distribution apart. -/
inductive Suffix where
  | bucket (bound : String)
  | sum
  | count

namespace Suffix

def text : Suffix → String
  | bucket _ => "_bucket"
  | sum => "_sum"
  | count => "_count"

def labels : Suffix → List (String × String)
  | bucket b => [("le", b)]
  | _ => []

theorem text_mem (u : Suffix) : u.text ∈ ["_bucket", "_sum", "_count"] := by
  cases u <;> simp [text]

def all (texts : List String) : List Suffix := (texts ++ ["+Inf"]).map bucket ++ [sum, count]

end Suffix

section
variable {d d' : Dist} {name name' sum sum' : String} {labels labels' : List (String × String)}
  {texts texts' : List String} {s s' : Sample}

theorem samples_sublist :
    ((d.samples name labels texts sum).map (fun s => (s.name, s.labels))).Sublist
      ((Suffix.all texts).map (fun u => (name ++ u.text, labels ++ u.labels))) := by
  have hbuckets : ∀ (bs : List String) (cs : List Int),
      ((List.zipWith (fun b c => (⟨name ++ "_bucket", labels ++ [("le", b)], Strings.itoa c⟩ : Sample))
        bs cs).map (fun s => (s.name, s.labels))).Sublist
      (bs.map (fun b => (name ++ "_bucket", labels ++ [("le", b)]))) := by
    intro bs cs
    induction bs generalizing cs with
    | nil => exact List.Sublist.refl _
    | cons b bs ih =>
      cases cs with
      | nil => exact List.nil_sublist _
      | cons c cs => exact (ih cs).cons₂ _
  unfold Dist.samples Suffix.all
  rw [List.map_append, List.map_append, List.map_map, List.map_append, List.append_assoc]
  apply (hbuckets texts d.buckets).append
  simp [Suffix.text, Suffix.labels]

/-- A line of a distribution. -/
theorem mem_samples (h : s ∈ d.samples name labels texts sum) :
    ∃ u : Suffix, s.name = name ++ u.text ∧ s.labels = labels ++ u.labels := by
  have hmem := samples_sublist.subset (List.mem_map_of_mem h)
  obtain ⟨u, -, hu⟩ := List.mem_map.mp hmem
  exact ⟨u, (Prod.ext_iff.mp hu).1.symm, (Prod.ext_iff.mp hu).2.symm⟩

theorem count_mem_samples :
    (⟨name ++ "_count", labels, Strings.itoa d.count⟩ : Sample) ∈ d.samples name labels texts sum := by
  simp [Dist.samples]

/-- No two lines of one distribution clash. -/
theorem samples_apart (hle : ∀ p ∈ labels, p.1 ≠ "le") (htexts : (texts ++ ["+Inf"]).Nodup) :
    (d.samples name labels texts sum).Pairwise (fun s s' => ¬ Clashing s s') := by
  have hall : (Suffix.all texts).Pairwise (fun u v => ¬ (name ++ u.text = name ++ v.text ∧
      SameSet (labels ++ u.labels) (labels ++ v.labels))) := by
    unfold Suffix.all
    rw [List.pairwise_append, List.pairwise_map]
    refine ⟨?_, ?_, ?_⟩
    · apply htexts.imp
      rintro b c hne ⟨-, hsame⟩
      have hb := (hsame ("le", b)).mp (by simp [Suffix.labels])
      rcases List.mem_append.mp hb with hb | hb
      · exact hle _ hb rfl
      · simp [Suffix.labels] at hb
        exact hne hb
    · simp [Suffix.text, String.append_right_inj]
    · intro u hu v hv
      obtain ⟨b, -, rfl⟩ := List.mem_map.mp hu
      rcases List.mem_pair.mp hv with rfl | rfl <;> simp [Suffix.text, String.append_right_inj]
  have hmapped : ((Suffix.all texts).map (fun u => (name ++ u.text, labels ++ u.labels))).Pairwise
      (fun i j => ¬ (i.1 = j.1 ∧ SameSet i.2 j.2)) := List.pairwise_map.mpr hall
  have hown : ((d.samples name labels texts sum).map (fun s => (s.name, s.labels))).Pairwise
      (fun i j => ¬ (i.1 = j.1 ∧ SameSet i.2 j.2)) := hmapped.sublist samples_sublist
  exact List.pairwise_map.mp hown

/-- Lines of two distributions that clash are lines of distributions that are labelled alike. -/
theorem sameSet_of_clashing (hle : ∀ p ∈ labels, p.1 ≠ "le") (hle' : ∀ p ∈ labels', p.1 ≠ "le")
    (hs : s ∈ d.samples name labels texts sum) (hs' : s' ∈ d'.samples name' labels' texts' sum')
    (h : Clashing s s') : SameSet labels labels' := by
  obtain ⟨u, -, hu⟩ := mem_samples hs
  obtain ⟨v, -, hv⟩ := mem_samples hs'
  have hclean : ∀ (u : Suffix) (xs : List (String × String)) p, p.1 ≠ "le" →
      (p ∈ xs ++ u.labels ↔ p ∈ xs) := by
    intro u xs p hp
    have hout : p ∉ u.labels := by
      cases u <;> simp [Suffix.labels]
      rintro rfl
      exact hp rfl
    simp [hout]
  intro p
  have hp := h.2 p
  rw [hu, hv] at hp
  by_cases hlabel : p.1 = "le"
  · exact ⟨fun h' => absurd hlabel (hle p h'), fun h' => absurd hlabel (hle' p h')⟩
  · rwa [hclean u _ p hlabel, hclean v _ p hlabel] at hp

end

/-- Where each part is apart in itself, a list of parts is apart if the parts are. -/
theorem pairwise_flatMap_iff {α β : Type} {R : β → β → Prop} (hsymm : ∀ x y, R x y → R y x)
    {l : List α} (hl : l.Nodup) {f : α → List β} (hown : ∀ a ∈ l, (f a).Pairwise R) :
    (l.flatMap f).Pairwise R ↔
      ∀ a ∈ l, ∀ b ∈ l, a ≠ b → ∀ x ∈ f a, ∀ y ∈ f b, R x y := by
  rw [List.pairwise_flatMap]
  constructor
  · intro h a ha b hb hne
    have hs : Std.Symm (fun a b => ∀ x ∈ f a, ∀ y ∈ f b, R x y) :=
      ⟨fun a b h y hy x hx => hsymm _ _ (h x hx y hy)⟩
    exact h.2.forall ha hb hne
  · intro h
    exact ⟨hown, hl.pairwise_of_forall_ne h⟩

/-- Two routes that the token metric cannot tell apart. -/
def Blurred (e e' : RouteKey × RouteLatency) : Prop :=
  e.1.provider = e'.1.provider ∧ e.1.model = e'.1.model ∧
    ∃ τ : TokenType, (τ.dist e.2).count ≠ 0 ∧ (τ.dist e'.2).count ≠ 0

theorem mem_counted {r : RouteLatency} {d : String × Dist} :
    d ∈ r.tokens.filter (fun d => d.2.count != 0) ↔
      ∃ τ : TokenType, d = (τ.label, τ.dist r) ∧ (τ.dist r).count ≠ 0 := by
  rw [List.mem_filter, mem_tokens]
  constructor
  · rintro ⟨⟨τ, rfl⟩, h⟩
    exact ⟨τ, rfl, by simpa using h⟩
  · rintro ⟨τ, rfl, h⟩
    exact ⟨⟨τ, rfl⟩, by simpa using h⟩

theorem counted_nodup (r : RouteLatency) :
    (r.tokens.filter (fun d => d.2.count != 0)).Nodup := by
  apply List.Nodup.filter
  simp [RouteLatency.tokens]

theorem label_inj {τ τ' : TokenType} (h : τ.label = τ'.label) : τ = τ' := by
  cases τ <;> cases τ' <;> first | rfl | exact absurd h (by decide)

theorem SameSet.singleton {p q : String × String} (h : SameSet [p] [q]) : p = q :=
  List.mem_singleton.mp ((h p).mp List.mem_cons_self)

section
variable {e e' : RouteKey × RouteLatency}

theorem labels_clean (k : RouteKey) (withError : Bool) : ∀ p ∈ k.labels withError, p.1 ≠ "le" := by
  intro p hp
  rw [labels_eq, mem_describe] at hp
  rcases hp with rfl | rfl | ⟨-, rfl⟩ | ⟨-, -, rfl⟩ <;> simp [labelNames]

theorem tokenLabels_clean (k : RouteKey) (label : String) :
    ∀ p ∈ k.labels false ++ [("gen_ai_token_type", label)], p.1 ≠ "le" := by
  intro p hp
  rcases List.mem_append.mp hp with hp | hp
  · exact labels_clean k false p hp
  · simp [List.mem_singleton.mp hp]

theorem duration_apart (k : RouteKey) (r : RouteLatency) :
    (durationSamples k r).Pairwise (fun s s' => ¬ Clashing s s') :=
  samples_apart (labels_clean k true) (by decide)

theorem tokenLines_apart (k : RouteKey) (d : String × Dist) :
    (tokenLines k d).Pairwise (fun s s' => ¬ Clashing s s') :=
  samples_apart (tokenLabels_clean k d.1) (by decide)

theorem durations_tokens_apart {s s' : Sample} (hs : s ∈ durationSamples e.1 e.2)
    (hs' : s' ∈ tokenSamples e'.1 e'.2) : ¬ Clashing s s' := by
  obtain ⟨d, -, hd⟩ := List.mem_flatMap.mp hs'
  obtain ⟨u, hu, -⟩ := mem_samples hs
  obtain ⟨v, hv, -⟩ := mem_samples hd
  have hall : ∀ x ∈ ["_bucket", "_sum", "_count"], ∀ y ∈ ["_bucket", "_sum", "_count"],
      durationName ++ x ≠ tokenName ++ y := by decide
  intro h
  have hname := h.1
  rw [hu, hv] at hname
  exact hall _ u.text_mem _ v.text_mem hname

variable (hp : e.1.provider ∈ providers) (hp' : e'.1.provider ∈ providers)
include hp hp'

/-- Descriptions with the error describe the whole key. -/
theorem key_eq_of_describe {n : Names} (hn : n.all.Nodup)
    (h : SameSet (describe n e.1 true) (describe n e'.1 true)) : e.1 = e'.1 := by
  rw [← List.append_nil (describe n e.1 true), ← List.append_nil (describe n e'.1 true)] at h
  obtain ⟨hprovider, hmodel, herror, -⟩ := describe_inj hn (by simp) (by simp) h
  have hsame := semconvOf_inj hp hp' hprovider
  calc e.1 = ⟨e.1.provider, e.1.model, e.1.errorType⟩ := rfl
    _ = e'.1 := by rw [hsame, hmodel, herror rfl]

omit hp hp' in
theorem type_eq_of_describe {n : Names} (hn : n.all.Nodup) {type : String} (htype : type ∉ n.all)
    {k k' : RouteKey} {τ τ' : TokenType} (h : SameSet (describe n k false ++ [(type, τ.label)])
      (describe n k' false ++ [(type, τ'.label)])) : τ = τ' := by
  obtain ⟨-, -, -, hextra⟩ := describe_inj hn (by simpa using htype) (by simpa using htype) h
  exact label_inj (Prod.ext_iff.mp hextra.singleton).2

/-- Those of the tokens describe the provider and the model, and the type. -/
theorem blurred_of_describe {n : Names} (hn : n.all.Nodup) {type : String} (htype : type ∉ n.all)
    {τ τ' : TokenType} (hτ : (τ.dist e.2).count ≠ 0) (hτ' : (τ'.dist e'.2).count ≠ 0)
    (h : SameSet (describe n e.1 false ++ [(type, τ.label)])
      (describe n e'.1 false ++ [(type, τ'.label)])) : Blurred e e' := by
  obtain rfl := type_eq_of_describe hn htype h
  obtain ⟨hprovider, hmodel, -, -⟩ :=
    describe_inj hn (by simpa using htype) (by simpa using htype) h
  exact ⟨semconvOf_inj hp hp' hprovider, hmodel, τ, hτ, hτ'⟩

omit hp hp' in
theorem describe_eq_of_blurred {n : Names} (h : Blurred e e') :
    describe n e.1 false = describe n e'.1 false := by
  simp [describe, h.1, h.2.1]

/-- The lines of the durations tell all keys apart. -/
theorem durations_apart (hne : e.1 ≠ e'.1) {s s' : Sample} (hs : s ∈ durationSamples e.1 e.2)
    (hs' : s' ∈ durationSamples e'.1 e'.2) : ¬ Clashing s s' := by
  intro h
  apply hne
  apply key_eq_of_describe hp hp' (n := labelNames) (by decide)
  exact sameSet_of_clashing (labels_clean _ _) (labels_clean _ _) hs hs' h

/-- The lines of the tokens do not. -/
theorem tokenSamples_apart_iff :
    (∀ s ∈ tokenSamples e.1 e.2, ∀ s' ∈ tokenSamples e'.1 e'.2, ¬ Clashing s s') ↔
      ¬ Blurred e e' := by
  constructor
  · intro h hblurred
    obtain ⟨τ, hτ, hτ'⟩ := hblurred.2.2
    have hlabels : e.1.labels false = e'.1.labels false :=
      describe_eq_of_blurred (n := labelNames) hblurred
    refine h _ (List.mem_flatMap.mpr ⟨_, mem_counted.mpr ⟨τ, rfl, hτ⟩, count_mem_samples⟩)
      _ (List.mem_flatMap.mpr ⟨_, mem_counted.mpr ⟨τ, rfl, hτ'⟩, count_mem_samples⟩) ⟨rfl, ?_⟩
    intro p
    rw [hlabels]
  · intro h s hs s' hs' hclash
    obtain ⟨d, hd, hs⟩ := List.mem_flatMap.mp hs
    obtain ⟨d', hd', hs'⟩ := List.mem_flatMap.mp hs'
    obtain ⟨τ, rfl, hτ⟩ := mem_counted.mp hd
    obtain ⟨τ', rfl, hτ'⟩ := mem_counted.mp hd'
    apply h
    have hsame := sameSet_of_clashing (tokenLabels_clean _ _) (tokenLabels_clean _ _) hs hs' hclash
    exact blurred_of_describe hp hp' (n := labelNames) (by decide) (by decide) hτ hτ' hsame

theorem tokenPoints_apart_iff (start time : String) :
    (∀ p ∈ tokenPoints start time e.1 e.2, ∀ p' ∈ tokenPoints start time e'.1 e'.2,
      ¬ SameSet p.attributes p'.attributes) ↔ ¬ Blurred e e' := by
  constructor
  · intro h hblurred
    obtain ⟨τ, hτ, hτ'⟩ := hblurred.2.2
    have hattrs : e.1.attrs false = e'.1.attrs false :=
      describe_eq_of_blurred (n := attrNames) hblurred
    refine h _ (List.mem_map_of_mem (mem_counted.mpr ⟨τ, rfl, hτ⟩))
      _ (List.mem_map_of_mem (mem_counted.mpr ⟨τ, rfl, hτ'⟩)) ?_
    intro p
    rw [tokenPoint, tokenPoint, hattrs]
  · intro h p hp₀ p' hp₀' hsame
    obtain ⟨d, hd, rfl⟩ := List.mem_map.mp hp₀
    obtain ⟨d', hd', rfl⟩ := List.mem_map.mp hp₀'
    obtain ⟨τ, rfl, hτ⟩ := mem_counted.mp hd
    obtain ⟨τ', rfl, hτ'⟩ := mem_counted.mp hd'
    exact h (blurred_of_describe hp hp' (n := attrNames) (by decide) (by decide) hτ hτ' hsame)

end

/-- The lines of one route's tokens. -/
theorem tokenSamples_own (k : RouteKey) (r : RouteLatency) :
    (tokenSamples k r).Pairwise (fun s s' => ¬ Clashing s s') := by
  apply (pairwise_flatMap_iff (fun _ _ h h' => h h'.symm) (counted_nodup r)
    (fun d _ => tokenLines_apart k d)).mpr
  intro d hd d' hd' hne s hs s' hs' hclash
  obtain ⟨τ, rfl, -⟩ := mem_counted.mp hd
  obtain ⟨τ', rfl, -⟩ := mem_counted.mp hd'
  have hsame := sameSet_of_clashing (tokenLabels_clean _ _) (tokenLabels_clean _ _) hs hs' hclash
  obtain rfl := type_eq_of_describe (n := labelNames) (by decide) (by decide) hsame
  exact hne rfl

theorem tokenPoints_own (start time : String) (k : RouteKey) (r : RouteLatency) :
    (tokenPoints start time k r).Pairwise (fun p p' => ¬ SameSet p.attributes p'.attributes) := by
  apply List.pairwise_map.mpr
  apply (counted_nodup r).imp_of_mem
  intro d d' hd hd' hne hsame
  obtain ⟨τ, rfl, -⟩ := mem_counted.mp hd
  obtain ⟨τ', rfl, -⟩ := mem_counted.mp hd'
  obtain rfl := type_eq_of_describe (n := attrNames) (by decide) (by decide) hsame
  exact hne rfl

/-- No series is exported twice. -/
structure Unique (t : RouteTable) (time start : String) : Prop where
  lines : (samplesOf (writeHistograms t)).Pairwise (fun s s' => ¬ Clashing s s')
  points : ∀ h ∈ routeHistograms t time start,
    h.dataPoints.Pairwise (fun p p' => ¬ SameSet p.attributes p'.attributes)

section
variable {t : RouteTable} (hp : ∀ e ∈ t.snapshot, e.1.provider ∈ providers)
include hp

theorem durationLines_apart : ((sorted t).flatMap (fun e => durationSamples e.1 e.2)).Pairwise
    (fun s s' => ¬ Clashing s s') := by
  apply (pairwise_flatMap_iff (fun _ _ h h' => h h'.symm) (sorted_nodup t)
    (fun e _ => duration_apart e.1 e.2)).mpr
  intro e he e' he' hne s hs s' hs'
  rw [mem_sorted] at he he'
  exact durations_apart (hp e he) (hp e' he') (snapshot_key_inj he he' hne) hs hs'

theorem durationPoints_apart (start time : String) :
    (t.snapshot.map (fun e => durationPoint start time e.1 e.2)).Pairwise
      (fun p p' => ¬ SameSet p.attributes p'.attributes) := by
  apply List.pairwise_map.mpr
  apply (snapshot_nodup t).imp_of_mem
  intro e e' he he' hne hsame
  apply snapshot_key_inj he he' hne
  exact key_eq_of_describe (hp e he) (hp e' he') (n := attrNames) (by decide) hsame

theorem tokenLines_apart_iff : ((sorted t).flatMap (fun e => tokenSamples e.1 e.2)).Pairwise
    (fun s s' => ¬ Clashing s s') ↔
      ∀ e ∈ t.snapshot, ∀ e' ∈ t.snapshot, e ≠ e' → ¬ Blurred e e' := by
  rw [pairwise_flatMap_iff (fun _ _ h h' => h h'.symm) (sorted_nodup t)
    (fun e _ => tokenSamples_own e.1 e.2)]
  simp only [mem_sorted]
  refine forall₂_congr (fun e he => forall₃_congr (fun e' he' _ => ?_))
  exact tokenSamples_apart_iff (hp e he) (hp e' he')

theorem tokenPoints_all_apart_iff (start time : String) :
    (t.snapshot.flatMap (fun e => tokenPoints start time e.1 e.2)).Pairwise
      (fun p p' => ¬ SameSet p.attributes p'.attributes) ↔
      ∀ e ∈ t.snapshot, ∀ e' ∈ t.snapshot, e ≠ e' → ¬ Blurred e e' := by
  rw [pairwise_flatMap_iff (fun _ _ h h' => h h'.symm) (snapshot_nodup t)
    (fun e _ => tokenPoints_own start time e.1 e.2)]
  refine forall₂_congr (fun e he => forall₃_congr (fun e' he' _ => ?_))
  exact tokenPoints_apart_iff (hp e he) (hp e' he') start time

/-- A table's series are unique as long as the token metric can tell its routes apart. -/
theorem unique_iff (time start : String) : Unique t time start ↔
    ∀ e ∈ t.snapshot, ∀ e' ∈ t.snapshot, e ≠ e' → ¬ Blurred e e' := by
  constructor
  · intro h
    have hlines := h.lines
    rw [samplesOf_writeHistograms, List.pairwise_append] at hlines
    exact (tokenLines_apart_iff hp).mp hlines.2.1
  · intro h
    constructor
    · rw [samplesOf_writeHistograms, List.pairwise_append]
      refine ⟨durationLines_apart hp, (tokenLines_apart_iff hp).mpr h, ?_⟩
      intro s hs s' hs'
      obtain ⟨e, -, he⟩ := List.mem_flatMap.mp hs
      obtain ⟨e', -, he'⟩ := List.mem_flatMap.mp hs'
      exact durations_tokens_apart he he'
    · intro hist hmem
      have htokens := (tokenPoints_all_apart_iff hp start time).mpr h
      unfold routeHistograms at hmem
      simp only at hmem
      split at hmem
      · cases hmem
      · rcases List.mem_cons.mp hmem with rfl | hmem
        · exact durationPoints_apart hp start time
        · split at hmem
          · cases hmem
          · rw [List.mem_singleton.mp hmem]
            exact htokens

end

/-- The provider stated tokens. -/
def Stated (c : RouteObservation) : Prop := c.usage.input ≠ 0 ∨ c.usage.output ≠ 0

/-- Requests that stated tokens were measured under two keys that differ in the error alone. -/
def Clash (calls : List RouteObservation) : Prop :=
  ∃ k k' : RouteKey, k.provider = k'.provider ∧ k.model = k'.model ∧ k.errorType ≠ k'.errorType ∧
    (∃ c ∈ under (some routeMaxKeys) k calls, Stated c) ∧
    ∃ c ∈ under (some routeMaxKeys) k' calls, Stated c

theorem count_tokens_ne_zero {τ : TokenType} {cs : List RouteObservation} :
    (τ.dist (aggregate cs)).count ≠ 0 ↔ ∃ c ∈ cs, Stated c := by
  rw [aggregate_tokens, distOf_count, tokensOf, List.length_map, Int.natCast_ne_zero,
    ← Nat.pos_iff_ne_zero, List.length_pos_iff_exists_mem]
  simp [Stated]

theorem clash_iff (calls : List RouteObservation) : Clash calls ↔
    ∃ e ∈ (observedAll (some routeMaxKeys) calls).snapshot,
      ∃ e' ∈ (observedAll (some routeMaxKeys) calls).snapshot, e ≠ e' ∧ Blurred e e' := by
  constructor
  · rintro ⟨k, k', hprovider, hmodel, herror, hk, hk'⟩
    refine ⟨_, mem_snapshot_of_under hk, _, mem_snapshot_of_under hk', ?_, hprovider, hmodel, ?_⟩
    · intro h
      exact herror (congrArg (fun e : RouteKey × RouteLatency => e.1.errorType) h)
    · exact ⟨.input, count_tokens_ne_zero.mpr hk, count_tokens_ne_zero.mpr hk'⟩
  · rintro ⟨⟨k, a⟩, he, ⟨k', a'⟩, he', hne, hprovider, hmodel, τ, hτ, hτ'⟩
    have hkeys := snapshot_key_inj he he' hne
    obtain rfl := aggregate_of_mem_snapshot he
    obtain rfl := aggregate_of_mem_snapshot he'
    refine ⟨k, k', hprovider, hmodel, ?_, count_tokens_ne_zero.mp hτ, count_tokens_ne_zero.mp hτ'⟩
    intro herror
    apply hkeys
    calc k = ⟨k.provider, k.model, k.errorType⟩ := rfl
      _ = k' := by rw [hprovider, hmodel, herror]

/-- Series are unique unless requests that differ in the error alone stated tokens. -/
theorem series_unique_iff (calls : List RouteObservation) (hp : ∀ c ∈ calls, c.provider ∈ providers)
    (time start : String) :
    Unique (observedAll (some routeMaxKeys) calls) time start ↔ ¬ Clash calls := by
  have hkeys : ∀ e ∈ (observedAll (some routeMaxKeys) calls).snapshot, e.1.provider ∈ providers := by
    intro e he
    obtain ⟨c, hc, hsame⟩ := provider_of_mem_snapshot he
    rw [hsame]
    exact hp c hc
  rw [unique_iff hkeys, clash_iff]
  push Not
  rfl

/-- A request that succeeded and one that failed, of one model. -/
def failedAfterTokens : List RouteObservation :=
  [⟨"openai", "gpt-4o", 502, 10, { input := 5, output := 7 }⟩,
    ⟨"openai", "gpt-4o", 200, 10, { input := 5, output := 7 }⟩]

theorem series_unique_iff_success :
    (∀ c ∈ failedAfterTokens.drop 1, c.provider ∈ providers) ∧
      Unique (observedAll (some routeMaxKeys) (failedAfterTokens.drop 1)) "2" "1" := by
  have hp : ∀ c ∈ failedAfterTokens.drop 1, c.provider ∈ providers := by decide
  have hone : ∀ k, under (some routeMaxKeys) k (failedAfterTokens.drop 1) ≠ [] →
      k = ⟨"openai", "gpt-4o", ""⟩ := by
    intro k hk
    by_contra hne
    exact hk (if_neg (fun h => hne (h.symm.trans (by decide))))
  refine ⟨hp, (series_unique_iff _ hp "2" "1").mpr ?_⟩
  rintro ⟨k, k', -, -, herror, ⟨c, hc, -⟩, ⟨c', hc', -⟩⟩
  apply herror
  rw [hone k (List.ne_nil_of_mem hc), hone k' (List.ne_nil_of_mem hc')]

/-- The tokens of a request that failed are a second series of the same name. -/
theorem failed_request_repeats_series : (∀ c ∈ failedAfterTokens, c.provider ∈ providers) ∧
    ¬ Unique (observedAll (some routeMaxKeys) failedAfterTokens) "2" "1" := by
  have hkeys : ∀ e ∈ (observedAll (some routeMaxKeys) failedAfterTokens).snapshot,
      e.1.provider ∈ providers := by decide
  refine ⟨by decide, fun h => ?_⟩
  have hclash : Clash failedAfterTokens := by
    refine ⟨⟨"openai", "gpt-4o", "502"⟩, ⟨"openai", "gpt-4o", ""⟩, rfl, rfl, by decide, ?_, ?_⟩
    · exact ⟨⟨"openai", "gpt-4o", 502, 10, { input := 5, output := 7 }⟩, by decide, .inl (by decide)⟩
    · exact ⟨⟨"openai", "gpt-4o", 200, 10, { input := 5, output := 7 }⟩, by decide, .inl (by decide)⟩
  obtain ⟨e, he, e', he', hne, hblurred⟩ := (clash_iff _).mp hclash
  exact (unique_iff hkeys "2" "1").mp h e he e' he' hne hblurred

end Switchboard.Proofs.Series
