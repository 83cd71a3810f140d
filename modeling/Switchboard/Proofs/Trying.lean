import Switchboard.Proofs.Evidence
import Switchboard.Proofs.Valid

namespace Switchboard.Proofs.Trying
open Text Gateway Tally Ledger Steps NoReplay Events
open Effect (Monitor Prog Machine Conf)

/-- What is assumed of a request that has the breakers for itself. -/
def undisturbed : Assume := { alone := True }

/-- The breaker of each provider that was found to be open to a try is so still. -/
def Assured (w : World) (sure : List String) : Prop :=
  ∀ p ∈ sure, ∃ b, w.circuits.lookup p = some b ∧ b.wouldAllow w.now = true

section
variable {srv : Server} {w w' : World} {g : Sheet}

theorem Assured.change {ed : Bytes → Bytes → Bytes → Bool} {ch : Change} (h : Assured w g.sure)
    (hc : w.change ed ch = some w') : Assured w' g.sure := by
  intro p hp
  obtain ⟨b, hb, hallow⟩ := h p hp
  exact ⟨b, by rw [(change_aged hc).circuits, hb], Circuit.wouldAllow_mono hallow (change_aged hc).now⟩

/-- A breaker that an operation does not touch is as it was. -/
theorem Assured.kept {e : Effect.Event Op Ans} {sure : List String} (h : Assured w g.sure)
    (hk : Kept e w w') (hsub : ∀ p ∈ sure, p ∈ g.sure ∧
      ∀ b, w.circuits.lookup p = some b → touched w.now p e.op b = b) :
    Assured w' sure := by
  intro p hp
  obtain ⟨hold, hsame⟩ := hsub p hp
  obtain ⟨b, hb, hallow⟩ := h p hold
  refine ⟨b, ?_, ?_⟩
  · rw [hk.circuits, hb, Option.map_some, hsame b hb]
  · rwa [hk.now]

/-- An operation that nothing is assured by. -/
theorem Assured.step {o : Op} {x : Ans o} {ch : Chance} (h : Assured w g.sure)
    (hs : w.perform srv o ch = some (x, w')) :
    (account srv undisturbed).may g o x ∧
      Assured w' ((account srv undisturbed).next g o x).sure := by
  have hkept := perform_kept hs
  have hall : (∀ p b, touched w.now p o b = b) → Assured w' g.sure :=
    fun ht => h.kept hkept (fun p hp => ⟨hp, fun b _ => ht p b⟩)
  have htouch : ∀ q, (∀ p b, p ≠ q → touched w.now p o b = b) → Assured w' (g.touch q).sure := by
    intro q ht
    refine h.kept hkept (fun p hp => ?_)
    obtain ⟨hmem, hne⟩ := List.mem_filter.mp hp
    exact ⟨hmem, fun b _ => ht p b (by simpa using hne)⟩
  cases o with
  | wouldAllow q =>
    obtain ⟨b, hb, hx, rfl⟩ := onCircuit_eq hs
    refine ⟨trivial, ?_⟩
    cases x with
    | false => exact hall (fun _ _ => rfl)
    | true =>
      intro p hp
      rcases List.mem_cons.mp hp with rfl | hp
      · exact ⟨b, AList.lookup_insert _, hx.symm⟩
      · exact hall (fun _ _ => rfl) p hp
  | allow q =>
    obtain ⟨b, hb, hx, rfl⟩ := onCircuit_eq hs
    refine ⟨fun _ hq => ?_, ?_⟩
    · obtain ⟨c, hc, hallow⟩ := h q hq
      rw [hb] at hc
      cases hc
      rw [hx, Circuit.allow_fst, hallow]
    · cases x with
      | true => exact htouch q (fun p b hp => by simp [touched, hp])
      | false =>
        refine h.kept hkept (fun p hp => ⟨hp, fun c hc => ?_⟩)
        simp only [touched]
        split
        · rename_i hpq
          rw [hpq, hb] at hc
          cases hc
          rw [Circuit.allow_refused hx.symm]
        · rfl
  | settle q s => exact ⟨trivial, htouch q (fun p b hp => by simp [touched, hp])⟩
  | now => exact ⟨fun hf => hf.elim, hall (fun _ _ => rfl)⟩
  | randomID n => exact ⟨fun hf => hf.elim, hall (fun _ _ => rfl)⟩
  | currentPolicy => exact ⟨fun _ _ => trivial, hall (fun _ _ => rfl)⟩
  | ask o => cases o <;> exact ⟨trivial, hall (fun _ _ => rfl)⟩
  | tell o => cases o <;> exact ⟨trivial, hall (fun _ _ => rfl)⟩
  | _ => exact ⟨trivial, hall (fun _ _ => rfl)⟩

/-- The first pass over the routes found one that could be tried. -/
def foundRoutable : Effect.Event Op Ans → Bool
  | ⟨.wouldAllow _, found⟩ => found
  | _ => false

theorem next_could {A : Assume} (g : Sheet) (o : Op) (x : Ans o) :
    ((account srv A).next g o x).could = (g.could || foundRoutable ⟨o, x⟩) := by
  have hsame : g.could = (g.could || false) := (Bool.or_false _).symm
  cases o with
  | wouldAllow p =>
    cases x with
    | false => exact hsame
    | true => exact (Bool.or_true _).symm
  | allow p => cases x <;> exact hsame
  | ask o => cases o <;> exact hsame
  | tell o => cases o <;> exact hsame
  | _ => exact hsame

theorem after_could {A : Assume} (log : List (Effect.Event Op Ans)) (g : Sheet) :
    ((account srv A).after g log).could = (g.could || log.any foundRoutable) := by
  induction log generalizing g with
  | nil => simp
  | cons e log ih => rw [Monitor.after_cons, ih, next_could, List.any_cons, Bool.or_assoc]

end

/-- A request that has the gateway for itself, while time passes and policies and the word of
the fleet come and go: if the first pass over the routes found one that could be tried, at
least one attempt has been made when the request returns. -/
theorem never_refuses_without_trying (ed25519Verify : Bytes → Bytes → Bytes → Bool) (srv : Server)
    (hvalid : srv.c.validate srv.lib = .ok ()) (r : Request) (w : World)
    (c : Conf Op Ans World Unit Event)
    (hr : (machine ed25519Verify srv).Reaches Machine.anyMove (.start w (fun _ => chat srv r)) c)
    (event : Event) (hret : c.prog () = .ret event)
    (hroutable : (c.log ()).any foundRoutable = true) : 1 ≤ event.attempts := by
  have hrelied : (account srv undisturbed).Relied {} (c.log ()) := by
    refine (Machine.relied (g := fun _ => {}) (I := fun w (g : Unit → Sheet) => Assured w (g ()).sure)
      ?_ ?_ ?_ hr).2 ()
    · nofun
    · intro w w' g h hc
      exact h.change hc.choose_spec
    · intro w w' g i o x h hs
      simpa using h.step hs.choose_spec
  have hrun := Machine.run_of_reaches hr ()
  rw [hret] at hrun
  have hemitted : Emitted undisturbed srv event _ := Monitor.wp_run hrun
    (chat_spec srv undisturbed (fun _ => (valid_of_validate hvalid).maxAttempts) (fun hs => hs) r) hrelied
  obtain ⟨base, hanswered⟩ := hemitted.answered
  have htried := hanswered.tried trivial
  rw [after_could, hroutable] at htried
  exact htried (Bool.or_true _)

/-- A gateway whose fleet has found both providers to be down. -/
def warned : World :=
  { plainWorld plainConfig with
    fleet := some (FleetHealth.apply 0 (AList.insert "openai" 100 (AList.insert "gemini" 100 ∅))
      fleetHintMax) }

/-- One request to that gateway. -/
def warnedOff : Conf Op Ans World Unit Event :=
  (driver (fun _ _ _ => true) plainServer).play (fun _ _ _ _ => true) (fun _ _ => true) 200
    [.go () (fun _ => false) (smooth busy)] (.start warned (fun _ => chat plainServer (plainRequest "")))

theorem warnedOff_reached : (machine (fun _ _ _ => true) plainServer).Reaches Machine.anyMove
    (.start warned (fun _ => chat plainServer (plainRequest ""))) warnedOff :=
  Effect.Driver.play_reaches (fun _ _ _ _ _ => trivial) (fun _ _ _ => trivial) _ _ _

theorem never_refuses_without_trying_warned :
    warned.fleet.any (fun f => f.unhealthy 0 "openai" && f.unhealthy 0 "gemini") = true ∧
      ∃ event, (warnedOff.prog ()).result = some event ∧ 1 ≤ event.attempts := by
  have hfound : (warnedOff.log ()).any foundRoutable = true := by decide +kernel
  have hreturned : ((warnedOff.prog ()).result).isSome = true := by decide +kernel
  obtain ⟨event, he⟩ := Option.isSome_iff_exists.mp hreturned
  exact ⟨by decide, event, he, never_refuses_without_trying _ plainServer (by decide) _ _ _
    warnedOff_reached event (Prog.eq_ret_of_result he) hfound⟩

end Switchboard.Proofs.Trying
