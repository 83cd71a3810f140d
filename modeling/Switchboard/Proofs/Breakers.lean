import Switchboard.Proofs.NoReplay
import Switchboard.Proofs.Steps

namespace Switchboard.Proofs.Breakers
open Text Gateway Watch Steps NoReplay
open Effect (Monitor Prog Machine Conf)

/-- Whoever set a probe flag is still there to answer for it. -/
def Claimants (w : World) (ghosts : ι → Ghost) : Prop :=
  ∀ p b, w.circuits.lookup p = some b → b.probe = true → ∃ i, (ghosts i).held = some p

section
variable [DecidableEq ι] {srv : Server} {known : String → Prop} {w w' : World}
  {ghosts : ι → Ghost} {i : ι} {o : Op} {x : Ans o} {ch : Chance}

/-- The flag of a provider that this operation leaves alone. -/
theorem Claimants.untouched {g : Ghost} (h : Claimants w ghosts) {p : String} {b : Circuit}
    (hb : w.circuits.lookup p = some b) (hp : b.probe = true)
    (hg : (ghosts i).held = some p → g.held = some p) :
    ∃ j, (Function.update ghosts i g j).held = some p := by
  obtain ⟨j, hj⟩ := h p b hb hp
  by_cases hi : j = i
  · subst hi
    exact ⟨j, by simpa using hg hj⟩
  · exact ⟨j, by simpa [hi] using hj⟩

theorem Claimants.step (h : Claimants w ghosts) (hok : (watch srv known).ok (ghosts i) o)
    (hs : w.perform srv o ch = some (x, w')) :
    Claimants w' (Function.update ghosts i ((watch srv known).next (ghosts i) o x)) := by
  intro p b' hb' hp'
  rw [(perform_kept hs).circuits p] at hb'
  obtain ⟨b, hb, rfl⟩ := Option.map_eq_some_iff.mp hb'
  cases o with
  | allow q =>
    by_cases hq : p = q
    · subst hq
      obtain ⟨c, hc, hx, -⟩ := onCircuit_eq hs
      rw [hc] at hb
      cases hb
      cases x with
      | true => exact ⟨i, by simp [watch]⟩
      | false =>
        have hsame : (b.allow w.now).2 = b := Circuit.allow_refused hx.symm
        simp only [touched, if_true, hsame] at hp'
        exact h.untouched hc hp' (fun hh => hh)
    · simp only [touched, hq, if_false] at hp'
      refine h.untouched hb hp' (fun hh => ?_)
      rw [hok.2] at hh
      cases hh
  | settle q s =>
    by_cases hq : p = q
    · subst hq
      simp [touched, Settlement.apply_probe] at hp'
    · simp only [touched, hq, if_false] at hp'
      refine h.untouched hb hp' (fun hh => ?_)
      simp [watch, Ghost.settle, hh, hq]
  | _ =>
    refine h.untouched hb hp' (fun hh => ?_)
    exact ((next_frame srv known (ghosts i) _ x).held (by simp) (by simp)).trans hh

/-- A run that has been let in by a breaker and has not returned. -/
def Between (log : List (Effect.Event Op Ans)) (p : M α) : Prop :=
  (∃ provider, (⟨.allow provider, true⟩ : Effect.Event Op Ans) ∈ log) ∧ ∀ a, p ≠ .ret a

end

/-- Whatever requests and checks run side by side and whatever happens to them, a probe
flag is set only while some request that a breaker let in has not returned. When there is
none, every provider can be tried as soon as its wait is over. -/
theorem no_leaked_probe [DecidableEq ι] (ed25519Verify : Bytes → Bytes → Bytes → Bool)
    (srv : Server) (tasks : ι → Task) (w : World)
    (hw : ∀ p b, w.circuits.lookup p = some b → b.probe = false)
    (c : Conf Op Ans World ι (Option Event))
    (hr : (machine ed25519Verify srv).Reaches Machine.anyMove
      (.start w (fun i => (tasks i).run srv)) c)
    (hidle : ∀ i, ¬ Between (c.log i) (c.prog i)) (p : String) (b : Circuit)
    (hb : c.state.circuits.lookup p = some b) :
    b.probe = false ∧ ∀ t, (∀ wait, b.openUntil = some wait → wait ≤ t) → b.wouldAllow t = true := by
  have hinit : Claimants w (fun i => ghost (tasks i)) :=
    fun p b hb hp => absurd hp (by simp [hw p b hb])
  obtain ⟨hinv, hwp⟩ := Machine.invariant (G := rules srv)
    (fun i => run_spec srv (fun _ => True) (tasks i))
    hinit
    (fun c s' _ h he _ => by
      obtain ⟨change, hc⟩ := he
      intro p b hb
      rw [(change_aged hc).circuits] at hb
      exact h p b hb)
    (fun c i o x s' _ h hok hs _ => by
      obtain ⟨ch, hs⟩ := hs
      exact ⟨rules_may srv _ o x, h.step hok hs⟩) hr
  have hprobe : b.probe = false := by
    by_contra hset
    obtain ⟨i, hheld⟩ := hinv p b hb (by simpa using hset)
    by_cases hlet : ∃ provider, (⟨.allow provider, true⟩ : Effect.Event Op Ans) ∈ c.log i
    · cases hp : c.prog i with
      | op o k => exact hidle i ⟨hlet, by simp [hp]⟩
      | ret result =>
        have hleft := hwp i
        rw [hp] at hleft
        rw [Left.held hleft] at hheld
        cases hheld
    · have hnone : ((rules srv).after (ghost (tasks i)) (c.log i)).held = none :=
        after_held (fun q hq => hlet ⟨q, hq⟩) _ (by cases tasks i <;> rfl)
      rw [hnone] at hheld
      cases hheld
  refine ⟨hprobe, fun t ht => ?_⟩
  unfold Circuit.wouldAllow
  split
  · rfl
  · rename_i wait hopen
    have hwait := ht wait hopen
    simp only [hprobe, Bool.not_false, Bool.and_true, Bool.not_eq_true', decide_eq_false_iff_not]
    omega

def returned : M α → Bool
  | .ret _ => true
  | .op _ _ => false

theorem not_between {log : List (Effect.Event Op Ans)} {p : M α} (h : returned p = true) :
    ¬ Between log p := by
  intro hb
  cases p with
  | ret a => exact hb.2 a rfl
  | op o k => cases h

/-- OpenAI's wait is over and its next request is the probe. -/
def reopening : World :=
  { plainWorld plainConfig with circuits := AList.insert "openai" { openUntil := some 0 } newCircuits }

def mixed : Bool → Task
  | true => .chat (plainRequest "")
  | false => .probeProviders

/-- A request takes the probe and is turned away, and the providers are checked. -/
def probedOnce : Conf Op Ans World Bool (Option Event) :=
  (driver (fun _ _ _ => true) plainServer).play (fun _ _ _ _ => true) (fun _ _ => true) 200
    [.go true (fun _ => false) (smooth busy), .go false (fun _ => false) (smooth busy)]
    (.start reopening (fun i => (mixed i).run plainServer))

theorem probedOnce_reached :
    (machine (fun _ _ _ => true) plainServer).Reaches Machine.anyMove
      (.start reopening (fun i => (mixed i).run plainServer)) probedOnce :=
  Effect.Driver.play_reaches (fun _ _ _ _ _ => trivial) (fun _ _ _ => trivial) _ _ _

theorem reopening_quiet (p : String) (b : Circuit) (h : reopening.circuits.lookup p = some b) :
    b.probe = false := by
  have hall : ∀ e ∈ reopening.circuits.entries, e.2.probe = false := by decide
  exact hall _ (AList.mem_lookup_iff.mp (Option.mem_def.mpr h))

theorem no_leaked_probe_probed_once :
    (probedOnce.log true).any
      (fun | ⟨.allow p, b⟩ => p == "openai" && b | _ => false) = true ∧
    ∀ p b, probedOnce.state.circuits.lookup p = some b → b.probe = false := by
  have hidle : ∀ i, ¬ Between (probedOnce.log i) (probedOnce.prog i) := by
    intro i
    cases i with
    | true => exact not_between (by decide +kernel)
    | false => exact not_between (by decide +kernel)
  exact ⟨by decide +kernel, fun p b hb => (no_leaked_probe _ plainServer mixed reopening
    reopening_quiet probedOnce probedOnce_reached hidle p b hb).1⟩

end Switchboard.Proofs.Breakers
