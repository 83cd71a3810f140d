import Switchboard.Gateway.World
import Switchboard.Proofs.Handler

namespace Switchboard.Proofs.Steps
open Text Gateway Watch

/-- The operations that offer a prompt to the prompt cache. -/
def offers : Op → Bool
  | .ask (.worthCaching _) => true
  | _ => false

/-- What questions and reports leave alone. -/
structure Same (w w' : World) : Prop where
  now : w'.now = w.now
  policies : w'.policies = w.policies
  circuits : w'.circuits = w.circuits
  idem : w'.idem = w.idem
  sweeper : w'.sweeper = w.sweeper

theorem Same.refl (w : World) : Same w w := ⟨rfl, rfl, rfl, rfl, rfl⟩

theorem note_same (w : World) (o : Tell) : Same w (w.note o) := by
  cases o with
  | share p f =>
    simp only [World.note]
    split
    · exact ⟨rfl, rfl, rfl, rfl, rfl⟩
    · exact .refl w
  | _ => exact ⟨rfl, rfl, rfl, rfl, rfl⟩

theorem answer_same {srv : Server} {w w' : World} {o : Ask} {ch : Chance} {x : Bool}
    (h : w.answer srv o ch = some (x, w')) : Same w w' := by
  unfold World.answer at h
  split at h
  case h_5 =>
    split at h
    · cases h
      exact ⟨rfl, rfl, rfl, rfl, rfl⟩
    · cases h
      exact .refl w
  case h_9 =>
    split at h
    · cases h
      exact .refl w
    · cases h
      exact ⟨rfl, rfl, rfl, rfl, rfl⟩
  case h_12 => cases h
  all_goals
    cases h
    exact ⟨rfl, rfl, rfl, rfl, rfl⟩

theorem note_prefixes (w : World) (o : Tell) : (w.note o).prefixes = w.prefixes := by
  cases o with
  | share p f =>
    simp only [World.note]
    split <;> rfl
  | _ => rfl

theorem answer_prefixes {srv : Server} {w w' : World} {o : Ask} {ch : Chance} {x : Bool}
    (h : w.answer srv o ch = some (x, w')) (ho : offers (.ask o) = false) :
    w'.prefixes = w.prefixes := by
  unfold World.answer at h
  split at h
  case h_5 => split at h <;> cases h <;> rfl
  case h_9 => cases ho
  case h_12 => cases h
  all_goals
    cases h
    rfl

theorem addAll_prefixes (ms : List Metric) (w : World) : (w.addAll ms).prefixes = w.prefixes := by
  induction ms generalizing w with
  | nil => rfl
  | cons m ms ih => exact ih (w.add m 1)

theorem addAll_same (ms : List Metric) (w : World) : Same w (w.addAll ms) := by
  induction ms generalizing w with
  | nil => exact .refl w
  | cons m ms ih =>
    obtain ⟨hn, hp, hc, hi, hs⟩ := ih (w.add m 1)
    exact ⟨hn, hp, hc, hi, hs⟩

/-- What an operation does to the breaker of provider `q`. -/
def touched (now : Int) (q : String) : Op → Circuit → Circuit
  | .allow p, c => if q = p then (c.allow now).2 else c
  | .settle p s, c => if q = p then s.apply c now else c
  | _, c => c

theorem onCircuit_eq {w w' : World} {p : String} {f : Circuit → α × Circuit} {a : α}
    (h : w.onCircuit p f = some (a, w')) : ∃ c, w.circuits.lookup p = some c ∧ a = (f c).1 ∧
      w' = { w with circuits := w.circuits.insert p (f c).2 } := by
  simp only [World.onCircuit, Option.map_eq_some_iff] at h
  obtain ⟨c, hc, he⟩ := h
  cases he
  exact ⟨c, hc, rfl, rfl⟩

/-- What one operation of a request leaves of the shared state. -/
structure Kept (e : Effect.Event Op Ans) (w w' : World) : Prop where
  now : w'.now = w.now
  policies : w'.policies = w.policies
  sweeper : w'.sweeper = w.sweeper
  idem : keyed e = false → w'.idem = w.idem
  circuits : ∀ q, w'.circuits.lookup q = (w.circuits.lookup q).map (touched w.now q e.op)
  prefixes : offers e.op = false → w'.prefixes = w.prefixes

theorem Same.kept {e : Effect.Event Op Ans} {w w' : World} (h : Same w w')
    (ht : ∀ q c, touched w.now q e.op c = c)
    (hp : offers e.op = false → w'.prefixes = w.prefixes) : Kept e w w' := by
  refine ⟨h.now, h.policies, h.sweeper, fun _ => h.idem, fun q => ?_, hp⟩
  rw [h.circuits]
  cases w.circuits.lookup q with
  | none => rfl
  | some c => simp [ht]

theorem onCircuit_kept {e : Effect.Event Op Ans} {w w' : World} {p : String}
    {f : Circuit → α × Circuit} {a : α} (h : w.onCircuit p f = some (a, w'))
    (ht : ∀ q c, w.circuits.lookup q = some c →
      touched w.now q e.op c = if q = p then (f c).2 else c) : Kept e w w' := by
  obtain ⟨c, hc, -, rfl⟩ := onCircuit_eq h
  refine ⟨rfl, rfl, rfl, fun _ => rfl, fun q => ?_, fun _ => rfl⟩
  by_cases hq : q = p
  · subst hq
    simp [hc, ht q c hc]
  · rw [AList.lookup_insert_ne hq]
    cases hl : w.circuits.lookup q with
    | none => rfl
    | some d => simp [ht q d hl, hq]

/-- The store changes and some counters with it. -/
theorem addAll_kept {e : Effect.Event Op Ans} {w : World} {idem : IdemStore} (ms : List Metric)
    (hk : keyed e = true) (ht : ∀ q c, touched w.now q e.op c = c) :
    Kept e w ({ w with idem := idem }.addAll ms) := by
  have h := (addAll_same ms { w with idem := idem }).kept (e := e) ht
    (fun _ => addAll_prefixes ms { w with idem := idem })
  refine ⟨h.now, h.policies, h.sweeper, fun hk' => ?_, h.circuits, h.prefixes⟩
  rw [hk] at hk'
  cases hk'

theorem perform_kept {srv : Server} {w w' : World} {o : Op} {ch : Chance} {x : Ans o}
    (h : w.perform srv o ch = some (x, w')) : Kept ⟨o, x⟩ w w' := by
  have hsame : ∀ {e : Effect.Event Op Ans}, (∀ q c, touched w.now q e.op c = c) → Kept e w w :=
    fun ht => (Same.refl w).kept ht (fun _ => rfl)
  cases o with
  | ask o => exact (answer_same h).kept (fun _ _ => rfl) (answer_prefixes h)
  | tell o =>
    cases h
    exact (note_same w o).kept (fun _ _ => rfl) (fun _ => note_prefixes w o)
  | wouldAllow p => exact onCircuit_kept h (fun q c _ => by simp [touched])
  | allow p => exact onCircuit_kept h (fun q c _ => rfl)
  | settle p s => exact onCircuit_kept h (fun q c _ => rfl)
  | beginKey k body =>
    cases ch with
    | disk d =>
      cases h
      exact addAll_kept _ rfl (fun _ _ => rfl)
    | _ => cases h
  | finishKey k e =>
    cases ch with
    | disk d =>
      cases h
      exact addAll_kept _ rfl (fun _ _ => rfl)
    | _ => cases h
  | releaseKey k =>
    cases ch with
    | flag removed =>
      cases h
      exact addAll_kept [] rfl (fun _ _ => rfl)
    | _ => cases h
  | awaitPolicy =>
    cases ch with
    | flag b =>
      cases b with
      | false =>
        cases h
        exact hsame (fun _ _ => rfl)
      | true => cases h
    | quiet =>
      obtain ⟨p, -, he⟩ := Option.map_eq_some_iff.mp h
      cases he
      exact hsame (fun _ _ => rfl)
    | _ => cases h
  | randomID n =>
    cases ch with
    | random b =>
      simp only [World.perform] at h
      split at h <;> cases h
      exact hsame (fun _ _ => rfl)
    | _ => cases h
  | now =>
    cases h
    exact hsame (fun _ _ => rfl)
  | syncState =>
    cases h
    exact hsame (fun _ _ => rfl)
  | currentPolicy =>
    cases h
    exact hsame (fun _ _ => rfl)
  | setHeader name value =>
    cases h
    exact hsame (fun _ _ => rfl)
  | delHeader name =>
    cases h
    exact hsame (fun _ _ => rfl)
  | writeHeader status =>
    cases h
    exact hsame (fun _ _ => rfl)
  | _ =>
    cases ch <;> cases h
    exact hsame (fun _ _ => rfl)

/-- What may become of the shared state between the operations of requests. -/
structure Aged (ed : Bytes → Bytes → Bytes → Bool) (w w' : World) : Prop where
  circuits : w'.circuits = w.circuits
  now : w.now ≤ w'.now
  store : w'.idem = w.idem ∧ w'.sweeper = w.sweeper ∨
    ∃ step, w.idem.sweep w.now w.sweeper step = some (w'.idem, w'.sweeper)
  policies : w'.policies = w.policies ∨
    (∃ raw persist written,
      w.policies.apply ed raw (w.now / second) persist written = .ok w'.policies) ∨
    ∃ raw, w.policies.restore ed raw (w.now / second) = .ok w'.policies
  prefixes : w'.prefixes = w.prefixes

/-- Between the operations of requests nobody touches the breakers, the clock does not go
back, the store is swept, and policies come in. -/
theorem change_aged {ed : Bytes → Bytes → Bytes → Bool} {w w' : World} {c : Change}
    (h : w.change ed c = some w') : Aged ed w w' := by
  cases c with
  | tick d =>
    cases h
    exact ⟨rfl, Int.le_add_of_nonneg_right (Int.natCast_nonneg d), .inl ⟨rfl, rfl⟩, .inl rfl, rfl⟩
  | apply raw persist written =>
    simp only [World.change] at h
    split at h
    · rename_i s hs
      cases h
      exact ⟨rfl, Int.le_refl _, .inl ⟨rfl, rfl⟩, .inr (.inl ⟨raw, persist, written, hs⟩), rfl⟩
    · cases h
  | restore raw =>
    simp only [World.change] at h
    split at h
    · rename_i s hs
      cases h
      exact ⟨rfl, Int.le_refl _, .inl ⟨rfl, rfl⟩, .inr (.inr ⟨raw, hs⟩), rfl⟩
    · cases h
  | sweep step =>
    obtain ⟨x, hs, he⟩ := Option.map_eq_some_iff.mp h
    cases he
    exact ⟨rfl, Int.le_refl _, .inr ⟨step, hs⟩, .inl rfl, rfl⟩
  | _ =>
    cases h
    exact ⟨rfl, Int.le_refl _, .inl ⟨rfl, rfl⟩, .inl rfl, rfl⟩

theorem env_of_change {ed : Bytes → Bytes → Bytes → Bool} (srv : Server) {w w' : World} {c : Change}
    (h : w.change ed c = some w') : (machine ed srv).env w w' := ⟨c, h⟩

/-- The bookkeeping of a task that has not begun. -/
def ghost : Task → Ghost
  | .chat r => begins r
  | .probeProviders => { check := true }

theorem ghost_claim (t : Task) : (ghost t).claim = .none := by
  cases t <;> rfl

/-- What a task leaves behind. -/
def Left (lib : Lib) : Option Event → Ghost → Prop
  | some event, g => Returned lib event g
  | none, g => Checking g

theorem run_spec (srv : Server) (known : String → Prop) (t : Task) :
    (watch srv known).wp (Left srv.lib) (t.run srv) (ghost t) := by
  cases t with
  | chat r => exact wp_map.mpr (chat_spec srv known r)
  | probeProviders => exact wp_map.mpr (probeProviders_spec srv known)

theorem Left.held {lib : Lib} {result : Option Event} {g : Ghost} (h : Left lib result g) :
    g.held = none := by
  cases result with
  | some event => exact Returned.held h
  | none => exact Checking.held h

end Switchboard.Proofs.Steps
