import Switchboard.Gateway.Tables

namespace Switchboard.Proofs.Budgets
open Text Gateway

/-- One call of `observe`. -/
structure Observation where
  time : Int
  key : BudgetKey
  budget : Int
  producedText : Bool
deriving DecidableEq, Repr

/-- The table after a history of observations, the last one first. -/
def table : List Observation → BudgetTable
  | [] => newBudgetTable
  | o :: past => (table past).observe o.time o.key o.budget o.producedText

/-- When a key was observed last. -/
def lastSeen (k : BudgetKey) : List Observation → Option Int
  | [] => none
  | o :: past => if o.key = k then some o.time else lastSeen k past

/-- The key has not been observed for longer than `ttl`. -/
def gap (ttl t : Int) (k : BudgetKey) (past : List Observation) : Bool :=
  match lastSeen k past with
  | some last => decide (ttl < t - last)
  | none => true

section
variable (ttl : Int) (limit : Nat)

/-- The keys observed since the table was last dropped. An observation drops it when there
are `limit` of them and it begins a new epoch of its key. -/
def tracked : List Observation → Finset BudgetKey
  | [] => ∅
  | o :: past =>
    if (o.key ∉ tracked past ∨ gap ttl o.time o.key past = true) ∧ limit ≤ (tracked past).card then
      {o.key}
    else insert o.key (tracked past)

/-- The observations of a key since its first one ever, its first one after a gap longer
than `ttl` or its first one after the table was dropped, whichever came last. -/
def epoch (k : BudgetKey) : List Observation → List Observation
  | [] => []
  | o :: past =>
    if o.key = k then
      if k ∉ tracked ttl limit past ∨ gap ttl o.time k past = true then [o] else o :: epoch k past
    else epoch k past

end

/-- A fact sums up some observations of its key. -/
structure Sums (f : BudgetFact) (os : List Observation) : Prop where
  empty : ∀ b, 1 ≤ b → (b ≤ f.emptyAt ↔ ∃ o ∈ os, o.producedText = false ∧ b ≤ o.budget)
  ok : ∀ b, 1 ≤ b → (f.okAt = 0 ∨ b < f.okAt ↔ ∀ o ∈ os, o.producedText = true → b < o.budget)
  nonneg : 0 ≤ f.okAt

theorem sums_nil : Sums {} [] := ⟨by simp; omega, by simp, Int.le_refl 0⟩

theorem noted_true (f : BudgetFact) (budget : Int) : BudgetTable.noted f budget true
    = { f with okAt := if f.okAt = 0 ∨ budget < f.okAt then budget else f.okAt } := by
  unfold BudgetTable.noted
  split <;> split <;> simp_all

theorem noted_false (f : BudgetFact) (budget : Int) : BudgetTable.noted f budget false
    = { f with emptyAt := if f.emptyAt < budget then budget else f.emptyAt } := by
  unfold BudgetTable.noted
  split <;> split <;> simp_all

/-- One more observation is noted. -/
theorem Sums.noted {f : BudgetFact} {os : List Observation} (h : Sums f os) {o : Observation}
    (ho : 1 ≤ o.budget) : Sums (BudgetTable.noted f o.budget o.producedText) (o :: os) := by
  have hn := h.nonneg
  cases hp : o.producedText with
  | true =>
    rw [noted_true]
    refine ⟨fun b hb => ?_, fun b hb => ?_, ?_⟩
    · simpa [hp] using h.empty b hb
    · have hk := h.ok b hb
      simp only [List.forall_mem_cons, hp, forall_const, ← hk]
      split <;> omega
    · show 0 ≤ if f.okAt = 0 ∨ o.budget < f.okAt then o.budget else f.okAt
      split <;> omega
  | false =>
    rw [noted_false]
    refine ⟨fun b hb => ?_, fun b hb => ?_, hn⟩
    · have he := h.empty b hb
      simp only [List.mem_cons, exists_eq_or_imp, hp, true_and, ← he]
      split <;> omega
    · simpa [hp] using h.ok b hb

abbrev ttl : Int := newBudgetTable.ttl

abbrev limit : Nat := newBudgetTable.limit

/-- The key has a fact exactly while it is tracked, and the fact sums up its epoch. -/
structure Summary (b : BudgetTable) (hist : List Observation) : Prop where
  ttl : b.ttl = ttl
  limit : b.limit = limit
  keys : ∀ k, k ∈ b.facts ↔ k ∈ tracked Budgets.ttl Budgets.limit hist
  fact : ∀ k f, b.facts.lookup k = some f →
    lastSeen k hist = some f.seen ∧ Sums f (epoch Budgets.ttl Budgets.limit k hist)

theorem Summary.size {b : BudgetTable} {hist : List Observation} (h : Summary b hist) :
    b.facts.size = (tracked Budgets.ttl Budgets.limit hist).card := by
  have hs : b.facts.keys.toFinset = tracked Budgets.ttl Budgets.limit hist := by
    ext k
    rw [List.mem_toFinset, ← h.keys k]
    rfl
  rw [← hs, List.toFinset_card_of_nodup b.facts.keys_nodup]
  simp [Map.size, AList.keys, List.keys]

/-- What `recalled` answers, by whether the key begins a new epoch. -/
theorem Summary.recalled {b : BudgetTable} {past : List Observation} (h : Summary b past)
    (o : Observation) :
    if o.key ∉ tracked Budgets.ttl Budgets.limit past ∨ gap Budgets.ttl o.time o.key past = true then
      b.recalled o.time o.key = ({}, if b.limit ≤ b.facts.size then { b with facts := ∅ } else b)
    else
      ∃ f, b.facts.lookup o.key = some f ∧ b.recalled o.time o.key = (f, b) := by
  cases hl : b.facts.lookup o.key with
  | none =>
    have hk : o.key ∉ tracked Budgets.ttl Budgets.limit past := by
      rw [← h.keys, ← AList.lookup_eq_none]
      exact hl
    rw [if_pos (.inl hk)]
    simp only [BudgetTable.recalled, hl]
  | some f =>
    have hk : o.key ∈ tracked Budgets.ttl Budgets.limit past := by
      rw [← h.keys, ← AList.lookup_isSome, hl]
      rfl
    have hg : gap Budgets.ttl o.time o.key past = decide (b.ttl < o.time - f.seen) := by
      rw [gap, (h.fact _ _ hl).1, h.ttl]
    by_cases ht : b.ttl < o.time - f.seen
    · rw [if_pos (.inr (by rw [hg, decide_eq_true ht]))]
      simp only [BudgetTable.recalled, hl, if_pos ht]
    · rw [if_neg (by simp [hk, hg, ht])]
      exact ⟨f, rfl, by simp only [BudgetTable.recalled, hl, if_neg ht]⟩

/-- The fact of the observed key is written to a table that kept some of the others. -/
theorem Summary.insert {b c : BudgetTable} {past : List Observation} (h : Summary b past)
    {o : Observation} {f : BudgetFact} (ht : c.ttl = b.ttl) (hl : c.limit = b.limit)
    (hkept : ∀ k g, c.facts.lookup k = some g → b.facts.lookup k = some g)
    (hkeys : ∀ k, k = o.key ∨ k ∈ c.facts
      ↔ k ∈ tracked Budgets.ttl Budgets.limit (o :: past))
    (hf : Sums f (epoch Budgets.ttl Budgets.limit o.key (o :: past))) :
    Summary { c with facts := c.facts.insert o.key { f with seen := o.time } } (o :: past) := by
  refine ⟨ht.trans h.ttl, hl.trans h.limit, fun k => ?_, fun k g hg => ?_⟩
  · rw [← hkeys k]
    exact AList.mem_insert c.facts
  · by_cases hk : k = o.key
    · subst hk
      obtain rfl : { f with seen := o.time } = g := by simpa using hg
      exact ⟨by simp [lastSeen], hf.empty, hf.ok, hf.nonneg⟩
    · have hold := h.fact k g (hkept k g (by simpa [AList.lookup_insert_ne hk] using hg))
      have hne : o.key ≠ k := fun e => hk e.symm
      simpa only [lastSeen, epoch, if_neg hne] using hold

theorem Summary.observe {b : BudgetTable} {past : List Observation} (h : Summary b past)
    {o : Observation} (ho : 1 ≤ o.budget) :
    Summary (b.observe o.time o.key o.budget o.producedText) (o :: past) := by
  have hr := h.recalled o
  rw [BudgetTable.observe, if_neg (by omega)]
  split at hr
  case isTrue hfresh =>
    have hsum : Sums (BudgetTable.noted {} o.budget o.producedText)
        (epoch Budgets.ttl Budgets.limit o.key (o :: past)) := by
      rw [epoch, if_pos rfl, if_pos hfresh]
      exact sums_nil.noted ho
    rw [hr]
    by_cases hfull : b.limit ≤ b.facts.size
    · rw [if_pos hfull]
      apply h.insert (c := { b with facts := ∅ }) rfl rfl (fun k g hg => ?_) (fun k => ?_) hsum
      · simp at hg
      · rw [tracked, if_pos ⟨hfresh, by rw [← h.size, ← h.limit]; exact hfull⟩]
        simp
    · rw [if_neg hfull]
      apply h.insert rfl rfl (fun k g hg => hg) (fun k => ?_) hsum
      rw [tracked, if_neg (fun hd => hfull (by rw [h.size, h.limit]; exact hd.2)), h.keys]
      simp
  case isFalse hold =>
    obtain ⟨f, hf, hr⟩ := hr
    have hsum : Sums (BudgetTable.noted f o.budget o.producedText)
        (epoch Budgets.ttl Budgets.limit o.key (o :: past)) := by
      rw [epoch, if_pos rfl, if_neg hold]
      exact (h.fact _ _ hf).2.noted ho
    rw [hr]
    apply h.insert rfl rfl (fun k g hg => hg) (fun k => ?_) hsum
    rw [tracked, if_neg (fun hd => hold hd.1), h.keys]
    simp

theorem summary_table {hist : List Observation} (hpos : ∀ o ∈ hist, 1 ≤ o.budget) :
    Summary (table hist) hist := by
  induction hist with
  | nil => exact ⟨rfl, rfl, fun k => by simp [table, newBudgetTable, tracked], by simp [table, newBudgetTable]⟩
  | cons o past ih =>
    have hp := List.forall_mem_cons.mp hpos
    exact (ih hp.2).observe hp.1

/-- The key was observed at most `ttl` before. -/
def Recent (k : BudgetKey) (hist : List Observation) (t : Int) : Prop :=
  ∃ last, lastSeen k hist = some last ∧ t - last ≤ ttl

/-- What the table is for: the epoch of the key survives, it is recent, it has an answer
without text at a budget as large and none with text at one as small. -/
def Skips (hist : List Observation) (t : Int) (k : BudgetKey) (b : Int) : Prop :=
  epoch ttl limit k hist ≠ [] ∧ k ∈ tracked ttl limit hist ∧ Recent k hist t ∧
  (∃ o ∈ epoch ttl limit k hist, o.producedText = false ∧ b ≤ o.budget) ∧
  ∀ o ∈ epoch ttl limit k hist, o.producedText = true → ¬ o.budget ≤ b

theorem skip_iff {b : BudgetTable} {hist : List Observation} (h : Summary b hist) (t : Int)
    (k : BudgetKey) {n : Int} (hn : 1 ≤ n) : b.skip t k n = true ↔ Skips hist t k n := by
  unfold BudgetTable.skip Skips
  cases hl : b.facts.lookup k with
  | none =>
    have hk : k ∉ tracked ttl limit hist := by
      rw [← h.keys, ← AList.lookup_eq_none]
      exact hl
    simp [hk]
  | some f =>
    have hk : k ∈ tracked ttl limit hist := by
      rw [← h.keys, ← AList.lookup_isSome, hl]
      rfl
    obtain ⟨hlast, hsum⟩ := h.fact k f hl
    have hrecent : Recent k hist t ↔ ¬ b.ttl < t - f.seen := by
      rw [h.ttl]
      simp [Recent, hlast]
    have hne : (∃ o ∈ epoch ttl limit k hist, o.producedText = false ∧ n ≤ o.budget) →
        epoch ttl limit k hist ≠ [] := by
      intro ⟨o, ho, _⟩
      exact List.ne_nil_of_mem ho
    simp only [hrecent, Int.not_le, ← hsum.empty n hn, ← hsum.ok n hn] at hne ⊢
    by_cases ht : b.ttl < t - f.seen
    · simp [ht]
    · by_cases he : f.emptyAt < n
      · simp [ht, he]
      · simp [ht, he, hk, hne (by omega)]
        omega

theorem Skips.of_perm {hist hist' : List Observation} {t b : Int} {k : BudgetKey}
    (hepoch : (epoch ttl limit k hist').Perm (epoch ttl limit k hist))
    (hkept : k ∈ tracked ttl limit hist' ↔ k ∈ tracked ttl limit hist)
    (hlast : Recent k hist' t ↔ Recent k hist t) (h : Skips hist t k b) : Skips hist' t k b := by
  obtain ⟨hne, hk, hr, ⟨o, ho, hempty⟩, htext⟩ := h
  refine ⟨?_, hkept.mpr hk, hlast.mpr hr, ⟨o, hepoch.mem_iff.mpr ho, hempty⟩, ?_⟩
  · exact List.ne_nil_of_mem (hepoch.mem_iff.mpr ho)
  · intro o ho
    exact htext o (hepoch.mem_iff.mp ho)

/-- The table answers what its history says, whatever the order within an epoch. -/
theorem budget_table_is_exact (hist : List Observation) (hpos : ∀ o ∈ hist, 1 ≤ o.budget)
    (t : Int) (k : BudgetKey) (b : Int) (hb : 1 ≤ b) :
    (k ∈ (table hist).facts ↔ k ∈ tracked ttl limit hist) ∧
    ((table hist).skip t k b = true ↔ Skips hist t k b) ∧
    ∀ hist' : List Observation, (∀ o ∈ hist', 1 ≤ o.budget) →
      (epoch ttl limit k hist').Perm (epoch ttl limit k hist) →
      (k ∈ tracked ttl limit hist' ↔ k ∈ tracked ttl limit hist) →
      (Recent k hist' t ↔ Recent k hist t) →
      (table hist').skip t k b = (table hist).skip t k b := by
  have hs := summary_table hpos
  refine ⟨hs.keys k, skip_iff hs t k hb, ?_⟩
  intro hist' hpos' hepoch hkept hlast
  rw [Bool.eq_iff_iff, skip_iff (summary_table hpos') t k hb, skip_iff hs t k hb]
  constructor
  · exact Skips.of_perm hepoch.symm hkept.symm hlast.symm
  · exact Skips.of_perm hepoch hkept hlast

/-- An answer without text at 1024 and then one with text at 4096. -/
def mixedHistory : List Observation :=
  [⟨5 * 3600 * second, ⟨"openai", "m"⟩, 4096, true⟩, ⟨0, ⟨"openai", "m"⟩, 1024, false⟩]

theorem budget_table_is_exact_mixed :
    (table mixedHistory).skip (10 * 3600 * second) ⟨"openai", "m"⟩ 1024 = true ↔
      Skips mixedHistory (10 * 3600 * second) ⟨"openai", "m"⟩ 1024 :=
  (budget_table_is_exact mixedHistory (by simp [mixedHistory]) _ _ _ (by simp)).2.1

/-- Some answer without text at a budget as large is at most `ttl` old. -/
def Fresh (hist : List Observation) (t : Int) (k : BudgetKey) (b : Int) : Prop :=
  ∃ o ∈ hist, o.key = k ∧ o.producedText = false ∧ b ≤ o.budget ∧ t - o.time ≤ ttl

theorem recall_snd (b : BudgetTable) (now : Int) (k : BudgetKey) :
    (b.recalled now k).2 = b ∨ (b.recalled now k).2 = { b with facts := ∅ } := by
  have hfresh : (if b.limit ≤ b.facts.size then { b with facts := ∅ } else b) = b ∨
      (if b.limit ≤ b.facts.size then { b with facts := ∅ } else b) = { b with facts := ∅ } := by
    split <;> simp
  unfold BudgetTable.recalled
  cases b.facts.lookup k with
  | none => exact hfresh
  | some f =>
    dsimp only
    split
    · exact hfresh
    · exact .inl rfl

theorem observe_ttl (b : BudgetTable) (now : Int) (k : BudgetKey) (budget : Int) (text : Bool) :
    (b.observe now k budget text).ttl = b.ttl := by
  unfold BudgetTable.observe
  split
  · rfl
  · show (b.recalled now k).2.ttl = b.ttl
    rcases recall_snd b now k with hr | hr <;> rw [hr]

theorem table_ttl (hist : List Observation) : (table hist).ttl = ttl := by
  induction hist with
  | nil => rfl
  | cons o past ih => exact (observe_ttl _ _ _ _ _).trans ih

/-- A fact is either the one just written or one that was there. -/
theorem lookup_observe {b : BudgetTable} {now : Int} {k j : BudgetKey} {budget : Int}
    {text : Bool} {f : BudgetFact} (h : (b.observe now k budget text).facts.lookup j = some f) :
    (0 < budget ∧ k = j ∧ now = f.seen) ∨
    ((k = j → ¬ 0 < budget) ∧ b.facts.lookup j = some f) := by
  unfold BudgetTable.observe at h
  split at h
  case isTrue hb => exact .inr ⟨fun _ => by omega, h⟩
  case isFalse hb =>
    by_cases hk : j = k
    · subst hk
      obtain rfl := Option.some.inj ((AList.lookup_insert _).symm.trans h)
      exact .inl ⟨by omega, rfl, rfl⟩
    · have hold := (AList.lookup_insert_ne hk).symm.trans h
      refine .inr ⟨fun e => absurd e.symm hk, ?_⟩
      rcases recall_snd b now k with hr | hr <;> rw [hr] at hold
      · exact hold
      · simp at hold

/-- A fact was last seen when its key was last observed. -/
theorem seen_of_lookup {hist : List Observation}
    (hclock : hist.Pairwise (fun later earlier => earlier.time ≤ later.time)) {k : BudgetKey}
    {f : BudgetFact} (hf : (table hist).facts.lookup k = some f) :
    (∃ o ∈ hist, o.key = k ∧ 0 < o.budget ∧ o.time = f.seen) ∧
    ∀ o ∈ hist, o.key = k → 0 < o.budget → o.time ≤ f.seen := by
  induction hist with
  | nil => simp [table, newBudgetTable] at hf
  | cons o past ih =>
    obtain ⟨hlater, hpast⟩ := List.pairwise_cons.mp hclock
    rcases lookup_observe hf with ⟨hb, hk, ht⟩ | ⟨hnot, hold⟩
    · refine ⟨⟨o, List.mem_cons_self, hk, hb, ht⟩, ?_⟩
      rw [← ht]
      exact List.forall_mem_cons.mpr ⟨fun _ _ => Int.le_refl _, fun p hp _ _ => hlater p hp⟩
    · obtain ⟨⟨p, hp, hseen⟩, hle⟩ := ih hpast hold
      refine ⟨⟨p, List.mem_cons_of_mem o hp, hseen⟩, ?_⟩
      exact List.forall_mem_cons.mpr ⟨fun hk hb => absurd hb (hnot hk), hle⟩

/-- The table skips while the fact is young, if it skips at all. -/
theorem skip_of_lookup {b : BudgetTable} {k : BudgetKey} {f : BudgetFact}
    (hf : b.facts.lookup k = some f) (t n : Int) : b.skip t k n = true ↔
      t - f.seen ≤ b.ttl ∧ n ≤ f.emptyAt ∧ (f.okAt = 0 ∨ n < f.okAt) := by
  simp only [BudgetTable.skip, hf]
  by_cases ht : b.ttl < t - f.seen
  · have hlate : ¬ t - f.seen ≤ b.ttl := not_le.mpr ht
    simp only [if_pos ht, hlate, false_and, Bool.false_eq_true]
  · have hyoung : t - f.seen ≤ b.ttl := not_lt.mp ht
    by_cases he : f.emptyAt < n
    · simp only [if_neg ht, if_pos he, not_le.mpr he, false_and, and_false, Bool.false_eq_true]
    · simp only [if_neg ht, if_neg he, hyoung, not_lt.mp he, true_and, Bool.or_eq_true, beq_iff_eq,
        decide_eq_true_eq]

/-- Exactly when no skip outlives the failures it rests on: the table does not skip, or no
observation of the model is later than its last failure at that budget. -/
theorem skips_rest_on_fresh_failures_iff (hist : List Observation)
    (hclock : hist.Pairwise (fun later earlier => earlier.time ≤ later.time))
    (k : BudgetKey) (b : Int) :
    (∀ t, (∀ o ∈ hist, o.time ≤ t) → (table hist).skip t k b = true → Fresh hist t k b) ↔
      (∀ t, (∀ o ∈ hist, o.time ≤ t) → (table hist).skip t k b = false) ∨
      ∃ o ∈ hist, o.key = k ∧ o.producedText = false ∧ b ≤ o.budget ∧
        ∀ o' ∈ hist, o'.key = k → 0 < o'.budget → o'.time ≤ o.time := by
  constructor
  · intro hfresh
    by_contra hnone
    obtain ⟨hskips, hlast⟩ := not_or.mp hnone
    push Not at hskips
    obtain ⟨t, hafter, ht⟩ := hskips
    rw [ne_eq, Bool.not_eq_false] at ht
    cases hf : (table hist).facts.lookup k with
    | none => simp [BudgetTable.skip, hf] at ht
    | some f =>
      rw [skip_of_lookup hf, table_ttl] at ht
      -- the last instant at which the fact is still young
      have hedge : (table hist).skip (f.seen + ttl) k b = true := by
        rw [skip_of_lookup hf, table_ttl]
        exact ⟨by omega, ht.2⟩
      obtain ⟨o, ho, hk, hempty, hb, hage⟩ :=
        hfresh _ (fun o ho => (hafter o ho).trans (by omega)) hedge
      refine hlast ⟨o, ho, hk, hempty, hb, fun o' ho' hk' hb' => ?_⟩
      have := (seen_of_lookup hclock hf).2 o' ho' hk' hb'
      omega
  · intro hcond t hafter ht
    rcases hcond with hnever | ⟨o, ho, hk, hempty, hb, hlast⟩
    · exact absurd ht (by simp [hnever t hafter])
    · cases hf : (table hist).facts.lookup k with
      | none => simp [BudgetTable.skip, hf] at ht
      | some f =>
        rw [skip_of_lookup hf, table_ttl] at ht
        obtain ⟨p, hp, hpk, hpb, hseen⟩ := (seen_of_lookup hclock hf).1
        have := hlast p hp hpk hpb
        exact ⟨o, ho, hk, hempty, hb, by omega⟩

theorem skips_rest_on_fresh_failures_iff_single :
    (table [⟨0, ⟨"openai", "m"⟩, 1024, false⟩]).skip 0 ⟨"openai", "m"⟩ 1024 = true ∧
    Fresh [⟨0, ⟨"openai", "m"⟩, 1024, false⟩] 0 ⟨"openai", "m"⟩ 1024 :=
  ⟨by decide, (skips_rest_on_fresh_failures_iff _ (List.pairwise_singleton _ _) _ _).mpr (.inr (by simp))
    0 (by simp) (by decide)⟩

/-- The failure is ten hours old, the model has answered since, and it is still skipped. -/
theorem old_failure_shadows :
    (table mixedHistory).skip (10 * 3600 * second) ⟨"openai", "m"⟩ 1024 = true ∧
    ¬ Fresh mixedHistory (10 * 3600 * second) ⟨"openai", "m"⟩ 1024 := by
  constructor
  · decide
  · simp [Fresh, mixedHistory, second, ttl, newBudgetTable]

end Switchboard.Proofs.Budgets
