import Switchboard.Proofs.Requests

namespace Switchboard.Proofs.Watch
open Text Gateway Entry Outline
open Effect (Monitor Prog)

/-- What has become of the key of a request that has returned. -/
def Concluded (lib : Lib) (event : Event) (g : Ghost) : Prop :=
  match g.claim with
  | .none => g.key ≠ "" → g.last = none
  | .opened _ _ => False
  | .refused status => event.status = status ∧ g.last = none
  | .replayed e => event.status = e.status ∧ event.replayed = true ∧ g.last = none
  | .released _ => ∀ l, g.last = some l → Releasable lib l.1 l.2
  | .recorded _ _ e => Recorded lib event g.last e

/-- A request that has returned holds no breaker and no key. -/
structure Returned (lib : Lib) (event : Event) (g : Ghost) : Prop where
  held : g.held = none
  concluded : Concluded lib event g

/-- A request whose key has not been looked at. -/
structure Unclaimed (key : String) (event : Event) (g : Ghost) : Prop where
  key : g.key = key
  held : g.held = none
  claim : g.claim = .none
  last : g.last = none
  quiet : g.wrote = false
  sound : event.streamFailed = false

section
variable {k : Inference} {known : String → Prop} {g : Ghost}

theorem dispatch_spec {event : Event} (h : Claimed k g) (hheld : g.held = none)
    (hquiet : g.wrote = false) (hlast : g.last = none) (hsound : event.streamFailed = false) :
    (watch k.srv known).wp (fun e g' => Over k e.event e.settled g') (dispatch k event) g := by
  have hnone : ∀ l, g.last = some l → Replayable k.srv.lib l.1 l.2 := by simp [hlast]
  unfold dispatch
  rw [Monitor.wp_bind_iff, wp_currentPolicy]
  intro p hp
  cases p with
  | none =>
    dsimp only
    rw [wp_fail]
    exact (h.over hheld (by simp [hlast])).wrote
  | some p =>
    have hroutes : ∀ r ∈ p.routes, known r.provider := hp p rfl
    dsimp only
    rw [Monitor.wp_bind_iff]
    have hprepass : (prepass k p.routes).Does (watch k.srv known).Ignored (fun _ => True) :=
      does_prepass p.routes (fun r hr _ => ⟨hroutes r hr, fun _ => rfl⟩)
        (fun _ _ _ => ⟨trivial, fun _ => rfl⟩) (fun _ _ => ⟨trivial, fun _ => rfl⟩)
    refine hprepass.wp_ignored (fun skips _ => ?_)
    refine routeLoop_spec _ (fun r hr => hroutes _ (List.of_mem_zip hr).1) _ _ ?_
    exact ⟨⟨h, hheld, hquiet⟩, hsound, hnone⟩

theorem replay_spec {id : String} {start : Int} {e : IdemEntry} {event : Event}
    {Q : Ended → Ghost → Prop}
    (h : ∀ ended, ended.event.status = e.status → ended.event.replayed = true →
      Q ended { g with wrote := true }) :
    (watch k.srv known).wp Q (replay id start e event) g := by
  unfold replay
  dsimp only
  rw [Monitor.wp_bind_iff, wp_setHeader]
  split
  · simp only [Monitor.wp_bind_iff, wp_setHeader, wp_writeHeader, wp_write]
    exact fun _ => h _ rfl rfl
  · simp only [Monitor.wp_bind_iff, wp_setHeader, wp_write]
    exact fun _ _ => h _ rfl rfl

/-- The key that is still claimed is given back. -/
theorem give_back_spec {e : Ended} {Q : Ended → Ghost → Prop} (hk : k.key ≠ "")
    (h : Over k e.event e.settled g)
    (hq : ∀ g', Returned k.srv.lib e.event g' → Q e g') :
    (watch k.srv known).wp Q (do
      if !e.settled then releaseKey k.key
      pure e) g := by
  cases hs : e.settled with
  | true =>
    obtain ⟨stored, entry, hclaim, hrecorded⟩ := h.recorded hk hs
    refine hq g ⟨h.held, ?_⟩
    simpa only [Concluded, hclaim] using hrecorded
  | false =>
    obtain ⟨⟨stored, hopen⟩, hlast⟩ := h.kept hk hs
    simp only [Bool.not_false, if_true, Monitor.wp_bind_iff, wp_releaseKey]
    refine ⟨⟨h.key.symm, ⟨stored, k.body, hopen⟩, hlast⟩, hq _ ⟨?_, ?_⟩⟩
    · simpa [Ghost.given, hopen] using h.held
    · simpa [Concluded, Ghost.given, hopen] using hlast

theorem claim_spec {event : Event} (h : Unclaimed k.key event g) :
    (watch k.srv known).wp (fun e g' => Returned k.srv.lib e.event g') (claim k event) g := by
  unfold claim
  split
  · rename_i hk
    refine Monitor.wp_mono (dispatch_spec ⟨h.key, fun hk' => absurd hk hk', fun _ => h.claim⟩ h.held
      h.quiet h.last h.sound) ?_
    intro e g' hover
    refine ⟨hover.held, ?_⟩
    have hkey : g'.key = "" := hover.key.trans hk
    simp [Concluded, hover.unkeyed hk, hkey]
  · rename_i hk
    have hdispatch : ∀ stored, (watch k.srv known).wp (fun e g' => Returned k.srv.lib e.event g')
        (do
          let e ← dispatch k event
          if !e.settled then releaseKey k.key
          pure e) { g with claim := .opened stored k.body } := by
      intro stored
      refine Monitor.wp_seq (dispatch_spec ⟨h.key, fun _ => ⟨stored, rfl⟩, fun hk' => absurd hk' hk⟩
        h.held h.quiet h.last h.sound) ?_
      intro e g' hover
      exact give_back_spec hk hover (fun g'' hr => hr)
    rw [Monitor.wp_bind_iff, wp_beginKey]
    refine ⟨⟨h.key.symm, h.key ▸ hk, h.claim⟩, fun r => ?_⟩
    rcases r with e | prior
    · cases e with
      | mismatch =>
        dsimp only
        rw [wp_fail]
        exact ⟨h.held, rfl, h.last⟩
      | conflict =>
        dsimp only
        rw [wp_fail]
        exact ⟨h.held, rfl, h.last⟩
      | full => exact hdispatch false
      | disk => exact hdispatch false
    · cases prior with
      | some e => exact replay_spec (fun ended hs hr => ⟨h.held, hs, hr, h.last⟩)
      | none => exact hdispatch true

end

section
variable {srv : Server} {known : String → Prop} {g : Ghost}

/-- A request that is answered before its key is looked at. -/
theorem Unclaimed.returned {key : String} {event event' : Event} (h : Unclaimed key event g) :
    Returned srv.lib event' { g with wrote := true } := by
  refine ⟨h.held, ?_⟩
  simp [Concluded, h.claim, h.last]

/-- What goes on around the routing is of no interest here. -/
theorem watch_aside {o : Op} (h : Clerical o ∨ Finishing o) : (watch srv known).Ignored o := by
  cases o with
  | allow p => rcases h with h | h <;> cases h
  | wouldAllow p => rcases h with h | h <;> cases h
  | settle p s => rcases h with h | h <;> cases h
  | beginKey key b => rcases h with h | h <;> cases h
  | finishKey key e => rcases h with h | h <;> cases h
  | releaseKey key => rcases h with h | h <;> cases h
  | send u => rcases h with h | h <;> cases h
  | writeHeader s => rcases h with h | h <;> cases h
  | write b => rcases h with h | h <;> cases h
  | _ => exact fun _ => ⟨trivial, fun _ => rfl⟩

theorem serve_spec {r : Request} {id : String} {start : Int} {event : Event}
    (h : Unclaimed r.idempotencyKey event g) :
    (watch srv known).wp (fun e g' => Returned srv.lib e.event g') (serve srv r id start event)
      g := by
  have hserves : Serves event (fun p => ∀ g, Unclaimed r.idempotencyKey event g →
      (watch srv known).wp (fun e => Returned srv.lib e.event) p g) := by
    apply serves_wp
    · exact fun g o ho => (watch_aside (.inl ho) g).1
    · intro g o x ho hg
      rw [(watch_aside (.inl ho) g).2 x]
      exact hg
    · exact fun o ho => watch_aside (.inl (clerical_of_leaving o ho))
    · intro g status msg _ hg
      rw [wp_fail]
      exact hg.returned
  refine hserves.serve (fun b c _ g hg => ?_) g h
  exact claim_spec (k := ⟨srv, r.idempotencyKey, id, start, b, c⟩) hg

/-- The bookkeeping of a request that has not begun. -/
def begins (r : Request) : Ghost := { key := r.idempotencyKey }

/-- Every request keeps the rules, and what it leaves behind when it returns. -/
theorem chat_spec (srv : Server) (known : String → Prop) (r : Request) :
    (watch srv known).wp (Returned srv.lib) (chat srv r) (begins r) := by
  apply chat_of_serve (Ψ := fun p => (watch srv known).wp (Returned srv.lib) p (begins r))
  · intro o f ho hf
    refine ⟨(watch_aside (.inl ho) _).1, fun x _ => ?_⟩
    rw [(watch_aside (.inl ho) _).2 x]
    exact hf x
  · intro id eventID trace span parent start
    refine Monitor.wp_seq (serve_spec ⟨rfl, rfl, rfl, rfl, rfl, rfl⟩) (fun ended g' hr => ?_)
    refine (does_epilogue.relax (fun o ho => watch_aside (.inr ho))).wp_ignored ?_
    rintro event ⟨t, rfl⟩
    exact ⟨hr.held, hr.concluded⟩

theorem probeOne_spec {route : Route} {pc : ProviderConfig} {Q : String → Ghost → Prop}
    (hc : g.check = true) (h : ∀ s last, Q s { g with last := last }) :
    (watch srv known).wp Q (probeOne srv route pc) g := by
  unfold probeOne
  rw [Monitor.wp_bind_iff]
  refine wp_upstream (h _ g.last) ?_
  intro u _ _
  dsimp only
  rw [Monitor.wp_bind_iff, wp_send]
  refine ⟨.inl hc, fun o => ?_⟩
  cases o with
  | failed => exact h _ _
  | response status retryAfter contentType body =>
    dsimp only
    split
    · exact h _ _
    split
    · exact h _ _
    split
    · exact h _ _
    · exact h _ _

/-- The check of the providers holds no breaker and no key. -/
structure Checking (g : Ghost) : Prop where
  check : g.check = true
  held : g.held = none
  claim : g.claim = .none

theorem probeRoutes_spec (routes : List Route) (hk : ∀ r ∈ routes, known r.provider)
    (seen : List String) (g : Ghost) (h : Checking g) :
    (watch srv known).wp (fun _ => Checking) (probeRoutes srv seen routes) g := by
  induction routes generalizing seen g with
  | nil => exact h
  | cons route routes ih =>
    have hrest := ih (fun r hr => hk r (List.mem_cons_of_mem _ hr))
    unfold probeRoutes
    split
    · exact hrest seen g h
    split
    · exact hrest _ g h
    · rw [Monitor.wp_bind_iff]
      refine probeOne_spec h.check (fun reason last => ?_)
      split
      · simp only [Monitor.wp_bind_iff, wp_tell, wp_settle]
        refine ⟨hk route List.mem_cons_self, hrest _ _ ⟨h.check, ?_, h.claim⟩⟩
        simp [Ghost.settle, h.held]
      · exact hrest _ _ ⟨h.check, h.held, h.claim⟩

theorem probeProviders_spec (srv : Server) (known : String → Prop) :
    (watch srv known).wp (fun _ => Checking) (probeProviders srv) { check := true } := by
  unfold probeProviders
  rw [Monitor.wp_bind_iff, wp_awaitPolicy]
  intro p hp
  cases p with
  | none => exact ⟨rfl, rfl, rfl⟩
  | some p => exact probeRoutes_spec p.routes (hp p rfl) [] _ ⟨rfl, rfl, rfl⟩

end

end Switchboard.Proofs.Watch
