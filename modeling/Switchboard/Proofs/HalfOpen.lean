import Switchboard.Effect.Labelled
import Switchboard.Gateway.Circuit

namespace Switchboard.Proofs.HalfOpen
open Effect Gateway

/-- How far one request has got. `probing` requests were admitted by claiming the
half-open probe, `admitted` ones while the circuit was closed. -/
inductive Session where
  | waiting
  | refused
  | admitted
  | probing
  | settled
deriving DecidableEq, Repr

/-- The requests on one provider's circuit. -/
structure Traffic (ι : Type) where
  circuit : Circuit
  now : Int
  session : ι → Session

inductive Label (ι : Type) where
  | tick (t : Int)
  | allow (i : ι)
  | settle (i : ι) (s : Settlement)

variable {ι : Type}

/-- Nobody has been let in yet. -/
def Traffic.Idle (t : Traffic ι) : Prop := t.circuit.probe = false ∧ ∀ i, t.session i = .waiting

/-- The flag is set exactly while one request holds the probe, and then the
circuit is not closed. -/
structure Held (t : Traffic ι) : Prop where
  flag : t.circuit.probe = true ↔ ∃ i, t.session i = .probing
  one : ∀ i j, t.session i = .probing → t.session j = .probing → i = j
  half : t.circuit.probe = true → t.circuit.openUntil ≠ none

theorem Traffic.Idle.held {t : Traffic ι} (h : t.Idle) : Held t := by
  refine ⟨?_, ?_, ?_⟩
  · simp [h.1, h.2]
  · intro i j hi
    rw [h.2 i] at hi
    cases hi
  · simp [h.1]

variable [DecidableEq ι]

namespace Traffic

def put (t : Traffic ι) (c : Circuit) (i : ι) (s : Session) : Traffic ι :=
  { t with circuit := c, session := Function.update t.session i s }

/-- One atomic step, taken under the circuit's mutex. -/
def step (t : Traffic ι) : Label ι → Option (Traffic ι)
  | .tick now => if t.now ≤ now then some { t with now := now } else none
  | .allow i =>
    if t.session i = .waiting then
      let (admitted, c) := t.circuit.allow t.now
      some (t.put c i (if admitted then (if c.probe && !t.circuit.probe then .probing else .admitted)
        else .refused))
    else none
  | .settle i s =>
    if t.session i = .admitted ∨ t.session i = .probing then
      some (t.put (s.apply t.circuit t.now) i .settled)
    else none

end Traffic

/-- The step is the settlement of the request that holds the probe. -/
def HolderSettles (s : Traffic ι) (l : Label ι) : Prop :=
  ∃ i how, l = .settle i how ∧ s.session i = .probing

/-- What half-open exclusivity asks of one step: while the probe is held nobody
else is let in, and only the holder's settlement clears the flag, closes the
circuit or wipes the window. -/
structure Exclusive (s : Traffic ι) (l : Label ι) (s' : Traffic ι) : Prop where
  alone : ∀ i j, s.session i = .probing → l = .allow j → s'.session j = .refused
  cleared : s.circuit.probe = true → s'.circuit.probe = false → HolderSettles s l
  closed : s.circuit.openUntil ≠ none → s'.circuit.openUntil = none → HolderSettles s l
  wiped : 0 < s.circuit.seen → s'.circuit.seen = 0 → HolderSettles s l

/-- A request admitted while the circuit was closed does not settle while the
probe is claimed, nor report a success while the circuit is open. -/
def Timely (s : Traffic ι) (l : Label ι) : Prop :=
  ∀ i how, l = .settle i how → s.session i = .admitted →
    s.circuit.probe = false ∧ (how = .result false → s.circuit.openUntil = none)

theorem step_tick {t t' : Traffic ι} {now : Int} (h : t.step (.tick now) = some t') :
    t' = { t with now := now } := by
  simp only [Traffic.step] at h
  split at h
  · exact (Option.some.inj h).symm
  · cases h

/-- The three things `allow` can do to a waiting request. -/
theorem step_allow {t t' : Traffic ι} {i : ι} (h : t.step (.allow i) = some t') :
    t.session i = .waiting ∧
      (t' = t.put t.circuit i .refused ∨
        (t.circuit.openUntil = none ∧ t' = t.put t.circuit i .admitted) ∨
        (t.circuit.openUntil ≠ none ∧ t.circuit.probe = false ∧
          t' = t.put { t.circuit with probe := true } i .probing)) := by
  simp only [Traffic.step] at h
  split at h
  · rename_i hw
    refine ⟨hw, ?_⟩
    have ht := (Option.some.inj h).symm
    cases ha : (t.circuit.allow t.now).1 with
    | false =>
      left
      simpa [ha, Circuit.allow_refused ha] using ht
    | true =>
      right
      rcases Circuit.allow_admitted ha with ⟨hn, hc⟩ | ⟨ho, hp, hc⟩
      · left
        exact ⟨hn, by simpa [ha, hc] using ht⟩
      · right
        exact ⟨ho, hp, by simpa [ha, hc, hp] using ht⟩
  · cases h

theorem step_settle {t t' : Traffic ι} {i : ι} {how : Settlement}
    (h : t.step (.settle i how) = some t') :
    (t.session i = .admitted ∨ t.session i = .probing) ∧
      t' = t.put (how.apply t.circuit t.now) i .settled := by
  simp only [Traffic.step] at h
  split at h
  · rename_i hs
    exact ⟨hs, (Option.some.inj h).symm⟩
  · cases h

/-- Moving one request between two states that do not hold the probe keeps the
holders as they are. -/
theorem put_probing_iff {t : Traffic ι} {c : Circuit} {i j : ι} {s : Session}
    (hs : s ≠ .probing) (hi : t.session i ≠ .probing) :
    (t.put c i s).session j = .probing ↔ t.session j = .probing := by
  by_cases hj : j = i
  · subst j
    simp [Traffic.put, hs, hi]
  · simp [Traffic.put, hj]

theorem Held.quiet {t : Traffic ι} {c : Circuit} {i : ι} {s : Session} (h : Held t)
    (hc : c.probe = t.circuit.probe) (ho : c.probe = true → c.openUntil = t.circuit.openUntil)
    (hs : s ≠ .probing) (hi : t.session i ≠ .probing) : Held (t.put c i s) := by
  refine ⟨?_, ?_, fun hp => ho hp ▸ h.half (hc ▸ hp)⟩
  · simp only [put_probing_iff hs hi]
    exact hc ▸ h.flag
  · intro a b ha hb
    exact h.one a b ((put_probing_iff hs hi).mp ha) ((put_probing_iff hs hi).mp hb)

/-- A claim makes the claimant the only holder. -/
theorem Held.claim {t : Traffic ι} {i : ι} (h : Held t) (hp : t.circuit.probe = false)
    (ho : t.circuit.openUntil ≠ none) :
    Held (t.put { t.circuit with probe := true } i .probing) := by
  have hnone : ∀ j, t.session j ≠ .probing := by
    intro j hj
    have := h.flag.mpr ⟨j, hj⟩
    simp [hp] at this
  have honly : ∀ j, (t.put { t.circuit with probe := true } i .probing).session j = .probing →
      j = i := by
    intro j hj
    by_contra hne
    exact hnone j (by simpa [Traffic.put, hne] using hj)
  refine ⟨⟨fun _ => ⟨i, by simp [Traffic.put]⟩, fun _ => rfl⟩, ?_, fun _ => ho⟩
  intro a b ha hb
  rw [honly a ha, honly b hb]

/-- The holder's settlement leaves no holder and no flag. -/
theorem Held.settled {t : Traffic ι} {i : ι} (h : Held t) (hi : t.session i = .probing)
    (how : Settlement) : Held (t.put (how.apply t.circuit t.now) i .settled) := by
  have hnone : ∀ j, (t.put (how.apply t.circuit t.now) i .settled).session j ≠ .probing := by
    intro j hj
    by_cases hji : j = i
    · subst j
      simp [Traffic.put] at hj
    · exact hji (h.one j i (by simpa [Traffic.put, hji] using hj) hi)
  have hclear : (t.put (how.apply t.circuit t.now) i .settled).circuit.probe = false :=
    how.apply_probe t.circuit t.now
  refine ⟨⟨fun hp => ?_, fun ⟨j, hj⟩ => False.elim (hnone j hj)⟩,
    fun a _ ha => False.elim (hnone a ha), fun hp => ?_⟩
  all_goals
    rw [hclear] at hp
    cases hp

theorem Held.step {t t' : Traffic ι} {l : Label ι} (h : Held t) (hk : Timely t l)
    (hs : t.step l = some t') : Held t' := by
  cases l with
  | tick now =>
    rw [step_tick hs]
    exact ⟨h.flag, h.one, h.half⟩
  | allow i =>
    obtain ⟨hw, rfl | ⟨_, rfl⟩ | ⟨ho, hp, rfl⟩⟩ := step_allow hs
    · exact h.quiet rfl (fun _ => rfl) (by simp) (by simp [hw])
    · exact h.quiet rfl (fun _ => rfl) (by simp) (by simp [hw])
    · exact h.claim hp ho
  | settle i how =>
    obtain ⟨ha | hp, rfl⟩ := step_settle hs
    · have hflag := (hk i how rfl ha).1
      exact h.quiet (by rw [how.apply_probe, hflag]) (by simp [how.apply_probe]) (by simp)
        (by simp [ha])
    · exact h.settled hp how

/-- An ordinary settlement neither reopens the window nor closes the circuit by
anything but a success. -/
theorem settle_ordinary {c : Circuit} {how : Settlement} (now : Int) (hp : c.probe = false)
    (ho : how = .result false → c.openUntil = none) :
    (c.openUntil ≠ none → (how.apply c now).openUntil ≠ none) ∧
      (0 < c.seen → 0 < (how.apply c now).seen) := by
  have hbump : 0 < c.seen → 0 < c.bumpSeen := by
    intro h
    unfold Circuit.bumpSeen
    split <;> omega
  cases how with
  | release => exact ⟨id, id⟩
  | cooldown d =>
    simp only [Settlement.apply, Circuit.cooldown]
    split
    · simp_all
    · split <;> simp_all
  | result failed =>
    cases failed with
    | false =>
      refine ⟨fun h => absurd (ho rfl) h, ?_⟩
      simpa [Settlement.apply, Circuit.result, hp] using hbump
    | true =>
      simp only [Settlement.apply, Circuit.result, Bool.true_eq_false, ↓reduceIte]
      split
      · exact ⟨fun _ => by simp, hbump⟩
      · exact ⟨id, hbump⟩

/-- With the flag in step with its holder, a timely step is exclusive. -/
theorem exclusive_of_timely {s s' : Traffic ι} {l : Label ι} (h : Held s) (hk : Timely s l)
    (hs : s.step l = some s') : Exclusive s l s' := by
  cases l with
  | tick now =>
    rw [step_tick hs]
    exact ⟨fun _ _ _ hl => (nomatch hl), fun h1 h2 => by simp_all, fun h1 h2 => absurd h2 h1,
      fun h1 h2 => absurd h2 (Nat.ne_of_gt h1)⟩
  | allow i =>
    obtain ⟨hw, hcases⟩ := step_allow hs
    refine ⟨?_, ?_, ?_, ?_⟩
    · rintro j k hj hl
      cases hl
      have hflag := h.flag.mpr ⟨j, hj⟩
      rcases hcases with rfl | ⟨hn, rfl⟩ | ⟨_, hp, rfl⟩
      · simp [Traffic.put]
      · exact absurd hn (h.half hflag)
      · simp [hp] at hflag
    all_goals
      rcases hcases with rfl | ⟨hn, rfl⟩ | ⟨_, hp, rfl⟩ <;> intro h1 h2 <;>
        simp_all [Traffic.put]
  | settle i how =>
    obtain ⟨ha | hp, rfl⟩ := step_settle hs
    · obtain ⟨hflag, hopen⟩ := hk i how rfl ha
      obtain ⟨ho, hseen⟩ := settle_ordinary s.now hflag hopen
      exact ⟨fun _ _ _ hl => (nomatch hl), fun h1 => by simp [hflag] at h1,
        fun h1 h2 => absurd h2 (ho h1), fun h1 h2 => absurd h2 (Nat.ne_of_gt (hseen h1))⟩
    · exact ⟨fun _ _ _ hl => (nomatch hl), fun _ _ => ⟨i, how, rfl, hp⟩,
        fun _ _ => ⟨i, how, rfl, hp⟩, fun _ _ => ⟨i, how, rfl, hp⟩⟩

/-- Conversely an untimely settlement clears a flag, or closes a circuit, that is
not its to clear. -/
theorem timely_of_exclusive {s s' : Traffic ι} {l : Label ι} (h : Exclusive s l s')
    (hs : s.step l = some s') : Timely s l := by
  rintro i how rfl ha
  have hnot : ¬ HolderSettles s (.settle i how) := by
    rintro ⟨j, how', hl, hj⟩
    cases hl
    rw [ha] at hj
    cases hj
  obtain ⟨_, rfl⟩ := step_settle hs
  refine ⟨?_, ?_⟩
  · cases hp : s.circuit.probe with
    | false => rfl
    | true => exact absurd (h.cleared hp (how.apply_probe _ _)) hnot
  · rintro rfl
    by_contra ho
    refine hnot (h.closed ho ?_)
    simp only [Traffic.put, Settlement.apply, Circuit.result, ↓reduceIte]
    split <;> rfl

/-- Half-open exclusivity holds of a run exactly when no request admitted while
the circuit was closed settles inside somebody else's probe, or brings a success
into an open window. -/
theorem half_open_exclusive_iff (t t' : Traffic ι) (ls : List (Label ι)) (h : t.Idle)
    (hr : runs Traffic.step t ls = some t') :
    (∀ s l s', Visits Traffic.step t ls s l s' → Exclusive s l s') ↔
      (∀ s l s', Visits Traffic.step t ls s l s' → Timely s l) := by
  refine ⟨fun hx s l s' hv => ?_, fun hk s l s' hv => ?_⟩
  · obtain ⟨_, _, _, _, hs⟩ := id hv
    exact timely_of_exclusive (hx s l s' hv) hs
  · obtain ⟨pre, post, rfl, hpre, hs⟩ := id hv
    have hheld : Held s := runs_invariant (fun _ _ _ hi ho hm => hi.step ho hm) h.held
      (fun a m b hm => hk a m b hm.before) hpre
    exact exclusive_of_timely hheld (hk s l s' hv) hs

/-- A circuit straight from `New`, at time zero. -/
def fresh : Traffic Nat := ⟨{}, 0, fun _ => .waiting⟩

/-- Requests 0 to 3 are let in together. Three of them fail and open the circuit.
Request 4 claims the probe when the window has passed. -/
def upToProbe : List (Label Nat) :=
  [.allow 0, .allow 1, .allow 2, .allow 3, .settle 0 (.result true), .settle 1 (.result true),
   .settle 2 (.result true), .tick (15 * second), .allow 4]

theorem half_open_exclusive_iff_probe_answered :
    fresh.Idle ∧ (runs Traffic.step fresh (upToProbe ++ [.settle 4 (.result false)])).isSome = true ∧
      ((∀ s l s', Visits Traffic.step fresh (upToProbe ++ [.settle 4 (.result false)]) s l s' →
          Exclusive s l s') ↔
        (∀ s l s', Visits Traffic.step fresh (upToProbe ++ [.settle 4 (.result false)]) s l s' →
          Timely s l)) :=
  ⟨⟨rfl, fun _ => rfl⟩, rfl, half_open_exclusive_iff fresh _ _ ⟨rfl, fun _ => rfl⟩ rfl⟩

/-- Request 3, admitted before the circuit opened, gives up during request 4's
probe. Its release clears the flag and request 5 is let in beside request 4. -/
theorem stale_release_admits_second_probe :
    ¬ ∀ (t t' : Traffic Nat) (ls : List (Label Nat)), t.Idle → runs Traffic.step t ls = some t' →
      ∀ s l s', Visits Traffic.step t ls s l s' → Exclusive s l s' := by
  intro h
  have hx := h fresh _ (upToProbe ++ [.settle 3 .release] ++ [.allow 5]) ⟨rfl, fun _ => rfl⟩ rfl
    _ (.allow 5) _ ⟨upToProbe ++ [.settle 3 .release], [], rfl, rfl, rfl⟩
  have hr := hx.alone 4 5 rfl rfl
  exact absurd hr (by decide)

end Switchboard.Proofs.HalfOpen
