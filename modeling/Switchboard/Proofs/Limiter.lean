import Switchboard.Gateway.Tables

namespace Switchboard.Proofs.Limiter
open Gateway

/-- Calls of `allow` one after the other: the bucket they leave, and each call's time and answer. -/
def serve (b : Bucket) : List Int → Bucket × List (Int × Bool)
  | [] => (b, [])
  | t :: ts => ((serve (b.allow t).2 ts).1, (t, (b.allow t).1) :: (serve (b.allow t).2 ts).2)

/-- How many calls were admitted from `s` to `u`. -/
def admitted (calls : List (Int × Bool)) (s u : ℚ) : Nat :=
  calls.countP (fun c => c.2 && decide (s ≤ c.1) && decide ((c.1 : ℚ) ≤ u))

/-- What a bucket lets through from `s` to `u`, times being in nanoseconds. -/
def allowance (rate burst : Int) (s u : ℚ) : ℚ := burst + rate * ((u - s) / second)

theorem admitted_append (calls more : List (Int × Bool)) (s u : ℚ) :
    admitted (calls ++ more) s u = admitted calls s u + admitted more s u :=
  List.countP_append

theorem admitted_until {calls : List (Int × Bool)} {last : Int} (h : ∀ c ∈ calls, c.1 ≤ last) (s : ℚ)
    {u v : ℚ} (hu : last ≤ u) (hv : last ≤ v) : admitted calls s u = admitted calls s v := by
  apply List.countP_congr
  intro c hc
  have hle : (c.1 : ℚ) ≤ last := by exact_mod_cast h c hc
  simp [hle.trans hu, hle.trans hv]

theorem admitted_none {calls : List (Int × Bool)} {last : Int} (h : ∀ c ∈ calls, c.1 ≤ last) {s u : ℚ}
    (hs : last < s) : admitted calls s u = 0 := by
  apply List.countP_eq_zero.mpr
  intro c hc
  have hle : (c.1 : ℚ) ≤ last := by exact_mod_cast h c hc
  simp [not_le.mpr (hle.trans_lt hs)]

theorem admitted_one (t : Int) (answer : Bool) {s u : ℚ} (hs : s ≤ t) (hu : t ≤ u) :
    admitted [(t, answer)] s u = if answer then 1 else 0 := by
  cases answer <;> simp [admitted, hs, hu]

/-- The tokens are what is left of the tightest window that ends now. -/
structure Level (created rate burst : Int) (calls : List (Int × Bool)) (b : Bucket) : Prop where
  keepsRate : b.rate = rate
  keepsBurst : b.burst = burst
  started : created ≤ b.last
  past : ∀ c ∈ calls, c.1 ≤ b.last
  below : ∀ s : ℚ, created ≤ s → s ≤ b.last →
    b.tokens + admitted calls s b.last ≤ allowance rate burst s b.last
  tight : ∃ s : ℚ, created ≤ s ∧ s ≤ b.last ∧
    b.tokens + admitted calls s b.last = allowance rate burst s b.last
  within : ∀ s u : ℚ, created ≤ s → s ≤ u → (admitted calls s u : ℚ) ≤ allowance rate burst s u

section
variable {created rate burst : Int} {calls : List (Int × Bool)} {b : Bucket} {t : Int}

/-- The tokens at a call, before it takes one. -/
def tokensAt (b : Bucket) (t : Int) : ℚ :=
  min b.burst (b.tokens + ((t - b.last : Int) : ℚ) / (second : ℚ) * b.rate)

theorem allow_eq (b : Bucket) (t : Int) :
    b.allow t = if tokensAt b t < 1 then (false, { b with tokens := tokensAt b t, last := t })
      else (true, { b with tokens := tokensAt b t - 1, last := t }) := rfl

theorem allowance_later (rate burst last t : Int) (s : ℚ) :
    allowance rate burst s t = allowance rate burst s last + ((t - last : Int) : ℚ) / (second : ℚ) * rate := by
  unfold allowance
  push_cast
  ring

theorem allowance_mono (hrate : 0 ≤ rate) {s u v : ℚ} (h : u ≤ v) :
    allowance rate burst s u ≤ allowance rate burst s v := by
  have hr : (0 : ℚ) ≤ rate := by exact_mod_cast hrate
  have hd : (u - s) / second ≤ (v - s) / second := by
    apply div_le_div_of_nonneg_right
    · linarith
    · decide
  unfold allowance
  linarith [mul_le_mul_of_nonneg_left hd hr]

theorem allowance_ge (hrate : 0 ≤ rate) {s u : ℚ} (h : s ≤ u) : (burst : ℚ) ≤ allowance rate burst s u := by
  have hmono : allowance rate burst s s ≤ allowance rate burst s u := allowance_mono hrate h
  simpa [allowance] using hmono

theorem level_new (hrate : 0 ≤ rate) (hburst : 0 ≤ burst) :
    Level created rate burst [] (newBucket created rate burst) := by
  refine ⟨rfl, rfl, Int.le_refl _, ?_, ?_, ?_, ?_⟩
  · intro c hc
    cases hc
  · intro s hs hle
    have heq : s = created := le_antisymm hle hs
    simp [newBucket, admitted, allowance, heq]
  · exact ⟨created, le_rfl, le_rfl, by simp [newBucket, admitted, allowance]⟩
  · intro s u _ hsu
    have hb : (0 : ℚ) ≤ burst := by exact_mod_cast hburst
    simpa [admitted] using hb.trans (allowance_ge hrate hsu)

/-- Waiting for a call changes neither that no window is overdrawn nor that one is tight. -/
theorem Level.wait (h : Level created rate burst calls b) (hrate : 0 ≤ rate) (ht : b.last ≤ t) :
    Level created rate burst calls { b with tokens := tokensAt b t, last := t } := by
  have hlast : (b.last : ℚ) ≤ t := by exact_mod_cast ht
  have hsame : ∀ s : ℚ, admitted calls s t = admitted calls s b.last :=
    fun s => admitted_until h.past s hlast le_rfl
  have hgain : tokensAt b t ≤ b.tokens + ((t - b.last : Int) : ℚ) / (second : ℚ) * rate := by
    rw [tokensAt, h.keepsRate]
    exact min_le_right _ _
  have hburst : tokensAt b t ≤ burst := by
    rw [tokensAt, h.keepsBurst]
    exact min_le_left _ _
  refine ⟨h.keepsRate, h.keepsBurst, h.started.trans ht, fun c hc => (h.past c hc).trans ht, ?_, ?_, h.within⟩
  · intro s hs hle
    dsimp only at hle ⊢
    by_cases hsl : s ≤ b.last
    · have := h.below s hs hsl
      rw [hsame, allowance_later rate burst b.last t s]
      linarith
    · rw [hsame, admitted_none h.past (not_le.mp hsl)]
      have hge : (burst : ℚ) ≤ allowance rate burst s t := allowance_ge hrate hle
      push_cast
      linarith
  · dsimp only
    obtain ⟨s, hs, hsl, htight⟩ := h.tight
    rcases min_choice b.burst (b.tokens + ((t - b.last : Int) : ℚ) / (second : ℚ) * b.rate) with hmin | hmin
    · -- A full bucket: no call was admitted at the very moment.
      have hfull : tokensAt b t = burst := by rw [tokensAt, hmin, h.keepsBurst]
      have hnone : admitted calls t b.last = 0 := by
        rcases hlast.lt_or_eq with hlt | heq
        · exact admitted_none h.past hlt
        · have hbelow := h.below b.last (by exact_mod_cast h.started) le_rfl
          have hzero : ((t - b.last : Int) : ℚ) = 0 := by
            push_cast
            linarith
          rw [hfull, hzero] at hgain
          simp only [allowance, sub_self, zero_div, mul_zero, add_zero, zero_mul] at hbelow hgain
          rw [← heq]
          have hle : (admitted calls b.last b.last : ℚ) ≤ 0 := by linarith
          exact_mod_cast le_antisymm hle (Nat.cast_nonneg _)
      refine ⟨t, by exact_mod_cast h.started.trans ht, le_rfl, ?_⟩
      rw [hsame, hnone, hfull]
      simp [allowance]
    · refine ⟨s, hs, hsl.trans hlast, ?_⟩
      rw [tokensAt, hmin, hsame, allowance_later rate burst b.last t s, h.keepsRate]
      linarith

/-- A call is admitted as long as no window that ends with it is overdrawn. -/
theorem Level.answer (h : Level created rate burst calls b) (hrate : 0 ≤ rate) (ht : b.last ≤ t) :
    (b.allow t).1 = true ↔ ∀ s : ℚ, created ≤ s → s ≤ t →
      ((admitted calls s t + 1 : Nat) : ℚ) ≤ allowance rate burst s t := by
  have hw := h.wait hrate ht
  have hanswer : (b.allow t).1 = true ↔ 1 ≤ tokensAt b t := by
    rw [allow_eq]
    split
    · rename_i hlt
      simpa using hlt
    · rename_i hge
      simpa using hge
  rw [hanswer]
  push_cast
  constructor
  · intro hone s hs hle
    have hbelow := hw.below s hs hle
    dsimp only at hbelow
    linarith
  · intro hall
    obtain ⟨s, hs, hle, htight⟩ := hw.tight
    have hroom := hall s hs hle
    dsimp only at htight
    linarith

theorem Level.allow (h : Level created rate burst calls b) (hrate : 0 ≤ rate) (ht : b.last ≤ t) :
    Level created rate burst (calls ++ [(t, (b.allow t).1)]) (b.allow t).2 := by
  have hw := h.wait hrate ht
  have hpast : ∀ c ∈ calls ++ [(t, (b.allow t).1)], c.1 ≤ t := by
    intro c hc
    rcases List.mem_append.mp hc with hc | hc
    · exact (h.past c hc).trans ht
    · rw [List.mem_singleton.mp hc]
  have hmore : ∀ s : ℚ, s ≤ t → admitted (calls ++ [(t, (b.allow t).1)]) s t =
      admitted calls s t + if (b.allow t).1 then 1 else 0 := by
    intro s hs
    rw [admitted_append, admitted_one t _ hs le_rfl]
  have hspent : (b.allow t).2.tokens + (if (b.allow t).1 then 1 else 0 : Nat) = tokensAt b t ∧
      (b.allow t).2.last = t ∧ (b.allow t).2.rate = b.rate ∧ (b.allow t).2.burst = b.burst := by
    rw [allow_eq]
    split <;> simp
  obtain ⟨htokens, hlast, hr, hb⟩ := hspent
  refine ⟨hr.trans h.keepsRate, hb.trans h.keepsBurst, ?_, ?_, ?_, ?_, ?_⟩
  · rw [hlast]
    exact h.started.trans ht
  · rw [hlast]
    exact hpast
  · rw [hlast]
    intro s hs hle
    have hbelow := hw.below s hs hle
    dsimp only at hbelow
    rw [hmore s hle]
    push_cast at htokens ⊢
    linarith
  · rw [hlast]
    obtain ⟨s, hs, hle, htight⟩ := hw.tight
    refine ⟨s, hs, hle, ?_⟩
    dsimp only at htight
    rw [hmore s hle]
    push_cast at htokens ⊢
    linarith
  · intro s u hs hsu
    rw [admitted_append]
    by_cases hcounted : (b.allow t).1 = true ∧ s ≤ t ∧ (t : ℚ) ≤ u
    · obtain ⟨hyes, hst, htu⟩ := hcounted
      have hroom := (h.answer hrate ht).mp hyes s hs hst
      have hlast' : (b.last : ℚ) ≤ t := by exact_mod_cast ht
      rw [admitted_one t _ hst htu, hyes, if_pos rfl, admitted_until h.past s (hlast'.trans htu) hlast']
      exact hroom.trans (allowance_mono hrate htu)
    · have hzero : admitted [(t, (b.allow t).1)] s u = 0 := by
        apply List.countP_eq_zero.mpr
        intro c hc
        rw [List.mem_singleton.mp hc]
        simpa [and_assoc] using hcounted
      rw [hzero]
      exact h.within s u hs hsu

theorem Level.serve (h : Level created rate burst calls b) (hrate : 0 ≤ rate) {ts : List Int}
    (hts : (b.last :: ts).Pairwise (· ≤ ·)) :
    Level created rate burst (calls ++ (serve b ts).2) (serve b ts).1 ∧
      (serve b ts).1.last = (b.last :: ts).getLast (List.cons_ne_nil _ _) := by
  induction ts generalizing b calls with
  | nil => simpa [Limiter.serve] using h
  | cons t ts ih =>
    obtain ⟨hfirst, hrest⟩ := List.pairwise_cons.mp hts
    have hlast : (b.allow t).2.last = t := by
      rw [allow_eq]
      split <;> rfl
    have hnext := ih (h.allow hrate (hfirst t List.mem_cons_self)) (by rw [hlast]; exact hrest)
    rw [List.append_assoc, List.singleton_append] at hnext
    refine ⟨hnext.1, ?_⟩
    rw [List.getLast_cons (List.cons_ne_nil _ _)]
    exact hnext.2.trans (by simp only [hlast])

end

/-- A call is admitted exactly if no window up to it is overdrawn by it, and no window ever is. -/
theorem allow_iff_no_window_overdrawn (created rate burst : Int) (hrate : 1 ≤ rate) (hburst : 1 ≤ burst)
    (ts : List Int) (t : Int) (hts : (created :: (ts ++ [t])).Pairwise (· ≤ ·)) :
    (((serve (newBucket created rate burst) ts).1.allow t).1 = true ↔
      ∀ s : ℚ, created ≤ s → s ≤ t →
        ((admitted (serve (newBucket created rate burst) ts).2 s t + 1 : Nat) : ℚ) ≤
          allowance rate burst s t) ∧
    ∀ s u : ℚ, created ≤ s → s ≤ u →
      (admitted (serve (newBucket created rate burst) (ts ++ [t])).2 s u : ℚ) ≤ allowance rate burst s u := by
  have hrate' : 0 ≤ rate := by omega
  have hnew : Level created rate burst [] (newBucket created rate burst) := level_new hrate' (by omega)
  have hbefore : (created :: ts).Pairwise (· ≤ ·) := by
    rw [← List.cons_append] at hts
    exact (List.pairwise_append.mp hts).1
  obtain ⟨hlevel, hlast⟩ := hnew.serve hrate' hbefore
  obtain ⟨hall, -⟩ := hnew.serve hrate' hts
  rw [List.nil_append] at hlevel hall
  refine ⟨hlevel.answer hrate' ?_, hall.within⟩
  rw [hlast]
  rw [← List.cons_append] at hts
  exact (List.pairwise_append.mp hts).2.2 _ (List.getLast_mem _) t List.mem_cons_self

/-- Two calls at once are within a burst of two, the third is not, and a second later another one is. -/
theorem allow_iff_no_window_overdrawn_burst :
    (∀ s : ℚ, ((0 : Int) : ℚ) ≤ s → s ≤ ((1000000000 : Int) : ℚ) →
      ((admitted (serve (newBucket 0 1 2) [0, 0, 0]).2 s ((1000000000 : Int) : ℚ) + 1 : Nat) : ℚ) ≤
        allowance 1 2 s ((1000000000 : Int) : ℚ)) ∧
      (serve (newBucket 0 1 2) [0, 0, 0, 1000000000]).2 =
        [(0, true), (0, true), (0, false), (1000000000, true)] := by
  have hrun : ((serve (newBucket 0 1 2) [0, 0, 0]).1.allow 1000000000).1 = true ∧
      (serve (newBucket 0 1 2) [0, 0, 0, 1000000000]).2 =
        [(0, true), (0, true), (0, false), (1000000000, true)] := by decide +kernel
  exact ⟨(allow_iff_no_window_overdrawn 0 1 2 (by decide) (by decide) [0, 0, 0] 1000000000
    (by decide)).1.mp hrun.1, hrun.2⟩

end Switchboard.Proofs.Limiter
