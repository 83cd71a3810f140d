import Switchboard.Effect.Labelled
import Switchboard.Gateway.PolicyCache
import Switchboard.Proofs.Signer

namespace Switchboard.Proofs.PolicyCache
open Text Gateway Effect Verify

/-- Versions in force, the last one first: never lower than one before, and the same
version only with the same canonical bytes. -/
def Ordered (ps : List Policy) : Prop :=
  ps.Pairwise (fun later earlier => earlier.version ≤ later.version ∧
    (earlier.version = later.version → canonical earlier = canonical later))

/-- What a step of the host has to respect: a gateway is started over a cache whose
rename has reached the disk. -/
def Settled (w : Host) (l : HostLabel) : Prop :=
  ∀ now, l = .start now → w.disk.visible = w.disk.durable

section
variable (ed : Bytes → Bytes → Bytes → Bool) (tenant : String) (keys : String → Option Bytes)

/-- `raw` is an envelope of `p` that a gateway with these keys accepts at some time. -/
def Holds (raw : Bytes) (p : Policy) : Prop :=
  ∃ now allow, (Host.newStore tenant keys).verify ed raw now allow = .ok p

end

variable {ed : Bytes → Bytes → Bytes → Bool} {tenant : String} {keys : String → Option Bytes}

theorem Holds.unique {raw : Bytes} {p q : Policy} (hp : Holds ed tenant keys raw p)
    (hq : Holds ed tenant keys raw q) : p = q := by
  obtain ⟨_, _, hp⟩ := hp
  obtain ⟨_, _, hq⟩ := hq
  obtain ⟨⟨e, _, _, hc⟩, hdp, -, -⟩ := verify_ok_iff.mp hp
  obtain ⟨⟨e', _, _, hc'⟩, hdq, -, -⟩ := verify_ok_iff.mp hq
  obtain rfl : e = e' := Option.some.inj (hc.decodes.symm.trans hc'.decodes)
  have hcanon : canonical p = canonical q := Option.some.inj (hc.payload.symm.trans hc'.payload)
  rw [hcanon, hdq] at hdp
  exact (Option.some.inj hdp).symm

theorem holds_of_verify {s : PolicyStore} {raw : Bytes} {now : Int} {allow : Bool} {p : Policy}
    (ht : s.tenant = tenant) (hk : s.keys = keys) (h : s.verify ed raw now allow = .ok p) :
    Holds ed tenant keys raw p := by
  subst ht hk
  exact ⟨now, allow, h⟩

/-- `p` may follow `q`. -/
def Newer (p q : Policy) : Prop := q.version < p.version ∨ p = q

theorem ordered_of_newer {ps : List Policy} (h : ps.Pairwise Newer) : Ordered ps := by
  refine h.imp ?_
  intro a b hab
  rcases hab with hlt | rfl
  · exact ⟨Int.le_of_lt hlt, fun heq => absurd heq (Int.ne_of_lt hlt)⟩
  · exact ⟨Int.le_refl _, fun _ => rfl⟩

theorem supersedes_true {s : PolicyStore} {p c : Policy} (h : s.supersedes p = .ok true)
    (hc : s.current = some c) : c.version < p.version := by
  unfold PolicyStore.supersedes at h
  rw [hc] at h
  dsimp only at h
  split at h
  · cases h
  · split at h
    · split at h <;> cases h
    · omega

section
variable (ed tenant keys)

/-- A cached envelope that is at least as new as everything that was in force. -/
def Covers (content : Option Bytes) (past : List Policy) : Prop :=
  ∀ q ∈ past, ∃ raw p, content = some raw ∧ Holds ed tenant keys raw p ∧ Newer p q

/-- A running gateway, against the disk and the past. -/
structure Alive (d : Disk) (past : List Policy) (p : Process) : Prop where
  config : p.store.tenant = tenant ∧ p.store.keys = keys
  current : ∀ q ∈ past, ∃ c, p.store.current = some c ∧ Newer c q
  waiting : ∀ c ∈ p.waiting, Holds ed tenant keys c.raw c.policy
  holder : ∀ c s, p.holder = some (c, s) → Holds ed tenant keys c.raw c.policy ∧
    (∀ q ∈ past, q.version < c.policy.version) ∧
    (s = .openDir ∨ s = .syncDir → d.visible = some c.raw)

structure Sound (w : Host) : Prop where
  ordered : w.activated.Pairwise Newer
  visible : Covers ed tenant keys w.disk.visible w.activated
  durable : Covers ed tenant keys w.disk.durable w.activated
  alive : ∀ p, w.process = some p → Alive ed tenant keys w.disk w.activated p

end

theorem covers_nil {past : List Policy} (h : Covers ed tenant keys none past) : past = [] := by
  cases past with
  | nil => rfl
  | cons q qs =>
    obtain ⟨raw, p, hraw, -⟩ := h q List.mem_cons_self
    cases hraw

/-- A policy at least as new as all before can be put in force. -/
theorem pairwise_activate {past : List Policy} {p : Policy} (h : past.Pairwise Newer)
    (hp : ∀ q ∈ past, Newer p q) : (p :: past).Pairwise Newer :=
  List.pairwise_cons.mpr ⟨hp, h⟩

theorem covers_activate {past : List Policy} {raw : Bytes} {p : Policy}
    (hraw : Holds ed tenant keys raw p) (hp : ∀ q ∈ past, Newer p q) :
    Covers ed tenant keys (some raw) (p :: past) := by
  intro q hq
  rcases List.mem_cons.mp hq with rfl | hq
  · exact ⟨raw, q, rfl, hraw, Or.inr rfl⟩
  · exact ⟨raw, p, rfl, hraw, hp q hq⟩

theorem Sound.withProcess {w : Host} {p : Process} (h : Sound ed tenant keys w)
    (hp : Alive ed tenant keys w.disk w.activated p) : Sound ed tenant keys (w.withProcess p) :=
  ⟨h.ordered, h.visible, h.durable, fun _ hq => Option.some.inj hq ▸ hp⟩

theorem Sound.boot {w : Host} {now : Int} (h : Sound ed tenant keys w)
    (hs : w.disk.visible = w.disk.durable) :
    Sound ed tenant keys (w.boot ed tenant keys now) := by
  unfold Host.boot
  split
  · rename_i hnone
    have hpast := covers_nil (hnone ▸ h.visible)
    refine h.withProcess ⟨⟨rfl, rfl⟩, ?_, ?_, ?_⟩
    · simp [hpast]
    · intro c hc
      cases hc
    · intro c s hc
      cases hc
  · rename_i raw hraw
    split
    · exact h
    · rename_i p hv
      have hholds : Holds ed tenant keys raw p := ⟨now, true, hv⟩
      have hnew : ∀ q ∈ w.activated, Newer p q := by
        intro q hq
        obtain ⟨raw', p', hraw', hholds', hnew⟩ := h.visible q hq
        obtain rfl : raw = raw' := Option.some.inj (hraw.symm.trans hraw')
        rw [hholds.unique hholds']
        exact hnew
      have hcov := covers_activate hholds hnew
      refine ⟨pairwise_activate h.ordered hnew, hraw ▸ hcov, ?_, ?_⟩
      · rw [← hs, hraw]
        exact hcov
      · rintro _ ⟨rfl⟩
        refine ⟨⟨rfl, rfl⟩, ?_, ?_, ?_⟩
        · intro q hq
          rcases List.mem_cons.mp hq with rfl | hq
          · exact ⟨q, rfl, Or.inr rfl⟩
          · exact ⟨p, rfl, hnew q hq⟩
        · intro c hc
          cases hc
        · intro c s hc
          cases hc

theorem Sound.verify {w : Host} {p : Process} {raw : Bytes} {now : Int} {q : Policy}
    (h : Sound ed tenant keys w) (hp : w.process = some p)
    (hv : p.store.verify ed raw now false = .ok q) :
    Sound ed tenant keys (w.withProcess { p with waiting := p.waiting ++ [⟨raw, q⟩] }) := by
  have ha := h.alive p hp
  refine h.withProcess ⟨ha.config, ha.current, ?_, ha.holder⟩
  intro c hc
  rcases List.mem_append.mp hc with hc | hc
  · exact ha.waiting c hc
  · obtain rfl := List.mem_singleton.mp hc
    exact holds_of_verify ha.config.1 ha.config.2 hv

theorem Sound.lock {w : Host} {p : Process} {c : Call} {i : Nat} (h : Sound ed tenant keys w)
    (hp : w.process = some p) (hc : p.waiting[i]? = some c) :
    Sound ed tenant keys (w.withProcess { p with waiting := p.waiting.eraseIdx i }) ∧
      (p.store.supersedes c.policy = .ok true →
        Sound ed tenant keys (w.withProcess
          { p with waiting := p.waiting.eraseIdx i, holder := some (c, .createTemp) })) := by
  have ha := h.alive p hp
  have hwait : ∀ c ∈ p.waiting.eraseIdx i, Holds ed tenant keys c.raw c.policy :=
    fun c hc => ha.waiting c (List.mem_of_mem_eraseIdx hc)
  refine ⟨h.withProcess ⟨ha.config, ha.current, hwait, ha.holder⟩, ?_⟩
  intro hs
  refine h.withProcess ⟨ha.config, ha.current, hwait, ?_⟩
  rintro _ _ ⟨rfl, rfl⟩
  refine ⟨ha.waiting c (List.mem_of_getElem? hc), ?_, by rintro (hs | hs) <;> cases hs⟩
  intro q hq
  obtain ⟨b, hb, hnew⟩ := ha.current q hq
  have hlt := supersedes_true hs hb
  rcases hnew with hnew | rfl
  · omega
  · exact hlt

/-- A system call of the holder that is not the last one. -/
theorem Sound.call {w : Host} {p : Process} {c : Call} {s s' : Stage} (h : Sound ed tenant keys w)
    (hp : w.process = some p) (hc : p.holder = some (c, s)) (hs : s.next = some s') :
    Sound ed tenant keys
      (({ w with disk := s.apply c.raw w.disk } : Host).withProcess
        { p with holder := some (c, s') }) := by
  have ha := h.alive p hp
  obtain ⟨hholds, hlt, hvis⟩ := ha.holder c s hc
  have hdur : (s.apply c.raw w.disk).durable = w.disk.durable := by
    cases s <;> first | rfl | cases hs
  have hcov : Covers ed tenant keys (s.apply c.raw w.disk).visible w.activated := by
    cases s with
    | rename => exact fun q hq => ⟨c.raw, c.policy, rfl, hholds, Or.inl (hlt q hq)⟩
    | syncDir => cases hs
    | _ => exact h.visible
  refine ⟨h.ordered, hcov, hdur ▸ h.durable, ?_⟩
  rintro _ ⟨rfl⟩
  refine ⟨ha.config, ha.current, ha.waiting, ?_⟩
  rintro _ _ ⟨rfl, rfl⟩
  refine ⟨hholds, hlt, fun hlate => ?_⟩
  cases s with
  | rename => rfl
  | openDir => exact hvis (Or.inl rfl)
  | syncDir => cases hs
  | _ => rcases hlate with rfl | rfl <;> cases hs

/-- The directory is synced, and the policy is put in force. -/
theorem Sound.activate {w : Host} {p : Process} {c : Call} {s : Stage}
    (h : Sound ed tenant keys w) (hp : w.process = some p) (hc : p.holder = some (c, s))
    (hs : s.next = none) :
    Sound ed tenant keys (({ w with disk := s.apply c.raw w.disk } : Host).activate p c) := by
  have ha := h.alive p hp
  obtain ⟨hholds, hlt, hvis⟩ := ha.holder c s hc
  obtain rfl : s = .syncDir := by cases s <;> first | rfl | cases hs
  have hvis := hvis (Or.inr rfl)
  have hnew : ∀ q ∈ w.activated, Newer c.policy q := fun q hq => Or.inl (hlt q hq)
  have hcov := covers_activate hholds hnew
  refine ⟨pairwise_activate h.ordered hnew, ?_, ?_, ?_⟩
  · exact hvis ▸ hcov
  · rw [← hvis] at hcov
    exact hcov
  · rintro _ ⟨rfl⟩
    refine ⟨ha.config, ?_, ha.waiting, ?_⟩
    · intro q hq
      rcases List.mem_cons.mp hq with rfl | hq
      · exact ⟨_, rfl, Or.inr rfl⟩
      · exact ⟨_, rfl, hnew q hq⟩
    · rintro _ _ ⟨⟩

theorem Sound.step {w w' : Host} {l : HostLabel} (h : Sound ed tenant keys w) (hk : Settled w l)
    (hs : w.step ed tenant keys l = some w') : Sound ed tenant keys w' := by
  cases l with
  | verify raw now =>
    simp only [Host.step] at hs
    split at hs
    · cases hs
    rename_i p hp
    split at hs
    · exact Option.some.inj hs ▸ h
    · rename_i q hv
      exact Option.some.inj hs ▸ h.verify hp hv
  | lock i =>
    simp only [Host.step] at hs
    split at hs
    · cases hs
    rename_i p hp
    split at hs
    · rename_i c _ hc
      obtain ⟨hidle, htake⟩ := h.lock hp hc
      split at hs
      · rename_i hsup
        exact Option.some.inj hs ▸ htake hsup
      · exact Option.some.inj hs ▸ hidle
    · cases hs
  | call ok =>
    simp only [Host.step] at hs
    split at hs
    · cases hs
    rename_i p hp
    split at hs
    · cases hs
    rename_i c s hc
    split at hs
    · split at hs
      · rename_i s' hnext
        exact Option.some.inj hs ▸ h.call hp hc hnext
      · rename_i hnext
        exact Option.some.inj hs ▸ h.activate hp hc hnext
    · have ha := h.alive p hp
      exact Option.some.inj hs ▸
        h.withProcess ⟨ha.config, ha.current, ha.waiting, fun _ _ hc => nomatch hc⟩
  | writeback =>
    obtain rfl := Option.some.inj hs
    refine ⟨h.ordered, h.visible, h.visible, fun p hp => ?_⟩
    have ha := h.alive p hp
    exact ⟨ha.config, ha.current, ha.waiting, ha.holder⟩
  | kill =>
    obtain rfl := Option.some.inj hs
    exact ⟨h.ordered, h.visible, h.durable, fun _ hp => nomatch hp⟩
  | powerLoss =>
    obtain rfl := Option.some.inj hs
    exact ⟨h.ordered, h.durable, h.durable, fun _ hp => nomatch hp⟩
  | start now =>
    simp only [Host.step] at hs
    split at hs
    · exact Option.some.inj hs ▸ h.boot (hk now rfl)
    · cases hs

theorem sound_cold : Sound ed tenant keys {} :=
  ⟨.nil, (fun _ hq => nomatch hq), (fun _ hq => nomatch hq), fun _ hp => nomatch hp⟩

/-- Versions neither roll back nor equivocate in a run whose gateways are started
over a cache that has reached the disk. -/
theorem versions_ordered_when_settled (ed : Bytes → Bytes → Bytes → Bool) (tenant : String)
    (keys : String → Option Bytes) (ls : List HostLabel) (w : Host)
    (hr : runs (Host.step ed tenant keys) {} ls = some w)
    (hk : ∀ s l s', Visits (Host.step ed tenant keys) {} ls s l s' → Settled s l) :
    Ordered w.activated :=
  ordered_of_newer (runs_invariant (fun _ _ _ hi ho hs => hi.step ho hs) sound_cold hk hr).ordered

/-- `Apply` of an envelope, as far as the given number of system calls. -/
def applyUpTo (raw : Bytes) (now : Int) (calls : Nat) : List HostLabel :=
  [.verify raw now, .lock 0] ++ List.replicate calls (.call true)

/-- `raw` is accepted as `p` at `now`, fresh or restored. -/
def Accepts (ed : Bytes → Bytes → Bytes → Bool) (tenant : String) (keys : String → Option Bytes)
    (now : Int) (raw : Bytes) (p : Policy) : Prop :=
  ∀ (s : PolicyStore) (allow : Bool), s.tenant = tenant → s.keys = keys →
    s.verify ed raw now allow = .ok p

section
variable {raw : Bytes} {p : Policy} {now : Int} {s : PolicyStore} {d : Disk}

theorem runs_apply {past : List Policy} (h : Accepts ed tenant keys now raw p) (ht : s.tenant = tenant)
    (hk : s.keys = keys) (hs : s.supersedes p = .ok true) (calls : Nat) (ls : List HostLabel) :
    runs (Host.step ed tenant keys) ⟨d, some { store := s }, past⟩ (applyUpTo raw now calls ++ ls) =
      runs (Host.step ed tenant keys)
        ⟨d, some { store := s, holder := some (⟨raw, p⟩, .createTemp) }, past⟩
        (List.replicate calls (.call true) ++ ls) := by
  have hv := h s false ht hk
  simp [applyUpTo, runs, Host.step, hv, hs, Host.withProcess]

theorem runs_boot_empty (ls : List HostLabel) :
    runs (Host.step ed tenant keys) {} (.start now :: ls) =
      runs (Host.step ed tenant keys) ⟨{}, some { store := Host.newStore tenant keys }, []⟩ ls := rfl

theorem runs_boot (h : Accepts ed tenant keys now raw p) (hd : d.visible = some raw)
    (past : List Policy) (ls : List HostLabel) :
    runs (Host.step ed tenant keys) ⟨d, none, past⟩ (.start now :: ls) =
      runs (Host.step ed tenant keys)
        ⟨d, some { store := (Host.newStore tenant keys).install p raw }, p :: past⟩ ls := by
  have hv := h (Host.newStore tenant keys) true rfl rfl
  simp [runs, Host.step, Host.boot, hd, hv]

end

section
variable {raw₁ raw₂ : Bytes} {p₁ p₂ : Policy} {now : Int}

theorem supersedes_install (s : PolicyStore) (hlt : p₁.version < p₂.version) :
    (s.install p₁ raw₁).supersedes p₂ = .ok true := by
  have hle : ¬p₂.version < p₁.version := by omega
  have hne : ¬p₂.version = p₁.version := by omega
  simp [PolicyStore.supersedes, PolicyStore.install, hle, hne]

/-- Two envelopes are put in force one after the other. -/
theorem activated_twice (h₁ : Accepts ed tenant keys now raw₁ p₁)
    (h₂ : Accepts ed tenant keys now raw₂ p₂) (hlt : p₁.version < p₂.version) :
    (runs (Host.step ed tenant keys) {}
      (.start now :: (applyUpTo raw₁ now 8 ++ applyUpTo raw₂ now 8))).map Host.activated =
      some [p₂, p₁] := by
  rw [runs_boot_empty, runs_apply h₁ rfl rfl rfl, ← List.append_nil (applyUpTo raw₂ now 8)]
  exact (congrArg _ (runs_apply h₂ rfl rfl (supersedes_install _ hlt) 8 [])).trans rfl

/-- The gateway dies between the rename of the second envelope and the sync of the
directory, the next one restores it, and power is lost before it is written back. -/
theorem activated_lost (h₁ : Accepts ed tenant keys now raw₁ p₁)
    (h₂ : Accepts ed tenant keys now raw₂ p₂) (hlt : p₁.version < p₂.version) :
    (runs (Host.step ed tenant keys) {}
      (.start now :: (applyUpTo raw₁ now 8 ++ (applyUpTo raw₂ now 6 ++
        [.kill, .start now, .powerLoss, .start now])))).map Host.activated =
      some [p₁, p₂, p₁] := by
  have hkilled := runs_boot (d := ⟨some raw₂, some raw₁⟩) h₂ rfl [p₁] [.powerLoss, .start now]
  have hlost := runs_boot (d := ⟨some raw₁, some raw₁⟩) h₁ rfl [p₂, p₁] []
  rw [runs_boot_empty, runs_apply h₁ rfl rfl rfl]
  refine (congrArg _ (runs_apply h₂ rfl rfl (supersedes_install _ hlt) 6 _)).trans ?_
  exact (congrArg _ hkilled).trans ((congrArg _ hlost).trans rfl)

end

def acmePolicy (version : Int) : Policy :=
  ⟨1, "acme", version, 1000, 2000, [⟨"openai", "gpt-4.1"⟩]⟩

def acmeEnvelope (version : Int) : Bytes :=
  Controlplane.respond (Signer.envelopeOf Signer.lengths "k1" (List.replicate 32 0)
    (canonical (acmePolicy version)))

theorem acceptable_acme {version : Int} (h : 1 ≤ version ∧ version ≤ 9007199254740991) :
    Acceptable (acmePolicy version) "acme" 1500 := by
  have hnamed : identifier "acme" = true := by decide
  have hroutes : validRoutes [] [⟨"openai", "gpt-4.1"⟩] = true := by decide
  exact ⟨rfl, rfl, hnamed, h, ⟨by simp [acmePolicy], by simp [acmePolicy]⟩,
    ⟨by simp [acmePolicy], by simp [acmePolicy]⟩, ⟨by simp [acmePolicy], by simp [acmePolicy]⟩,
    hroutes⟩

theorem accepts_acme {version : Int} (hv : 1 ≤ version ∧ version ≤ 9007199254740991) :
    Accepts Signer.lengths.verify "acme" Signer.acmeStore.keys 1500 (acmeEnvelope version)
      (acmePolicy version) := by
  intro s allow ht hk
  exact Signer.verify_envelope (ht ▸ acceptable_acme hv) (by simp [acmePolicy]) (by decide)
    (by simp [acmePolicy]) (by decide) (by decide) (by rw [hk]; rfl)

theorem versions_ordered_when_settled_twice :
    ∃ w, runs (Host.step Signer.lengths.verify "acme" Signer.acmeStore.keys) {}
        (.start 1500 :: (applyUpTo (acmeEnvelope 1) 1500 8 ++
          applyUpTo (acmeEnvelope 2) 1500 8)) = some w ∧
      w.activated = [acmePolicy 2, acmePolicy 1] ∧ Ordered w.activated := by
  obtain ⟨w, hw, hv⟩ := Option.map_eq_some_iff.mp
    (activated_twice (accepts_acme (by decide)) (accepts_acme (by decide)) (by decide :
      (acmePolicy 1).version < (acmePolicy 2).version))
  refine ⟨w, hw, hv, versions_ordered_when_settled _ _ _ _ w hw ?_⟩
  rintro s l s' ⟨pre, post, hls, hpre, -⟩ now rfl
  cases pre with
  | nil =>
    obtain rfl := Option.some.inj hpre
    rfl
  | cons l pre =>
    have htail := (List.cons.inj hls).2
    have hmem : HostLabel.start now ∈
        applyUpTo (acmeEnvelope 1) 1500 8 ++ applyUpTo (acmeEnvelope 2) 1500 8 := by
      rw [htail]
      simp
    simp [applyUpTo] at hmem

/-- Version 2 is restored and served before its rename has reached the disk, and
version 1 after it. -/
theorem unsettled_restore_rolls_back :
    ¬ ∀ (ed : Bytes → Bytes → Bytes → Bool) (tenant : String) (keys : String → Option Bytes)
      (ls : List HostLabel) (w : Host), runs (Host.step ed tenant keys) {} ls = some w →
      Ordered w.activated := by
  intro h
  obtain ⟨w, hw, hv⟩ := Option.map_eq_some_iff.mp
    (activated_lost (accepts_acme (by decide)) (accepts_acme (by decide)) (by decide :
      (acmePolicy 1).version < (acmePolicy 2).version))
  have hord := h _ _ _ _ w hw
  rw [hv] at hord
  simp [Ordered, acmePolicy] at hord

end Switchboard.Proofs.PolicyCache
