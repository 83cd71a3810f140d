import Switchboard.Proofs.Honest

namespace Switchboard.Proofs.Holding
open Text Gateway Watch Steps
open Effect (Monitor Prog Machine Conf)

/-- The operations with which a request gives its key back or records an outcome for it. -/
def settles : Effect.Event Op Ans → Bool
  | ⟨.finishKey _ _, _⟩ => true
  | ⟨.releaseKey _, _⟩ => true
  | _ => false

/-- The request has asked for `key` with `body`, was told `r`, and has not settled since. -/
def Unsettled (key : String) (body : Bytes) (r : Except StoreError (Option IdemEntry))
    (log : List (Effect.Event Op Ans)) : Prop :=
  ∃ pre post, log = pre ++ ⟨.beginKey key body, r⟩ :: post ∧ ∀ e ∈ post, settles e = false

/-- Between a successful claim and its settlement. -/
def InFlight (key : String) (body : Bytes) (log : List (Effect.Event Op Ans)) : Prop :=
  Unsettled key body (.ok none) log

/-- At work without an entry: the store was full, or the disk failed. -/
def Unstored (key : String) (body : Bytes) (log : List (Effect.Event Op Ans)) : Prop :=
  Unsettled key body (.error .full) log ∨ Unsettled key body (.error .disk) log

theorem Unsettled.snoc {key : String} {body : Bytes} {r : Except StoreError (Option IdemEntry)}
    {log : List (Effect.Event Op Ans)} {e : Effect.Event Op Ans} (h : Unsettled key body r log)
    (he : settles e = false) : Unsettled key body r (log ++ [e]) := by
  obtain ⟨pre, post, rfl, hpost⟩ := h
  refine ⟨pre, post ++ [e], by simp, fun d hd => ?_⟩
  rcases List.mem_append.mp hd with hd | hd
  · exact hpost d hd
  · rwa [List.mem_singleton.mp hd]

theorem Unsettled.mem {key : String} {body : Bytes} {r : Except StoreError (Option IdemEntry)}
    {log : List (Effect.Event Op Ans)} (h : Unsettled key body r log) :
    (⟨.beginKey key body, r⟩ : Effect.Event Op Ans) ∈ log := by
  obtain ⟨pre, post, rfl, -⟩ := h
  simp

/-- What becomes of a key that is asked for. -/
def claimOf (body : Bytes) : Except StoreError (Option IdemEntry) → Claim
  | .ok none => .opened true body
  | .ok (some e) => .replayed e
  | .error .mismatch => .refused 422
  | .error .conflict => .refused 409
  | .error .full => .opened false body
  | .error .disk => .opened false body

theorem begun_claim (g : Ghost) (body : Bytes) (r : Except StoreError (Option IdemEntry)) :
    (g.begun body r).claim = claimOf body r := by
  rcases r with e | prior
  · cases e <;> rfl
  · cases prior <;> rfl

theorem claimOf_ne_none (body : Bytes) (r : Except StoreError (Option IdemEntry)) :
    claimOf body r ≠ .none := by
  rcases r with e | prior
  · cases e <;> nofun
  · cases prior <;> nofun

theorem claimOf_opened {b body : Bytes} {r : Except StoreError (Option IdemEntry)} {stored : Bool}
    (h : claimOf b r = .opened stored body) : b = body := by
  rcases r with e | prior
  · cases e <;> cases h <;> rfl
  · cases prior <;> cases h
    rfl

/-- A claim that nothing can be done with any more. -/
def Closed : Claim → Prop
  | .none => False
  | .opened _ _ => False
  | _ => True

/-- A claim that has let the request through to the providers. -/
def Entered : Claim → Prop
  | .opened _ _ => True
  | .released _ => True
  | .recorded _ _ _ => True
  | _ => False

section
variable {srv : Server} {known : String → Prop} {g : Ghost} {log : List (Effect.Event Op Ans)}

/-- Whoever has an open claim has asked for it and has not settled since. -/
theorem unsettled_of_opened {stored : Bool} {body : Bytes} (hg : g.claim = .none)
    (h : ((watch srv known).after g log).claim = .opened stored body) :
    ∃ key r, claimOf body r = .opened stored body ∧ Unsettled key body r log := by
  induction log using List.reverseRecOn with
  | nil =>
    rw [Monitor.after_nil, hg] at h
    cases h
  | append_singleton log e ih =>
    rw [Monitor.after_append, Monitor.after_cons, Monitor.after_nil] at h
    have hframe := next_frame srv known ((watch srv known).after g log) e.op e.ans
    have hkeep : keyed e = false → settles e = false →
        ∃ key r, claimOf body r = .opened stored body ∧ Unsettled key body r (log ++ [e]) := by
      intro hkeyed hsettles
      rw [hframe.claim hkeyed] at h
      obtain ⟨key, r, hr, hu⟩ := ih h
      exact ⟨key, r, hr, hu.snoc hsettles⟩
    obtain ⟨o, x⟩ := e
    cases o with
    | beginKey k b =>
      have hclaim : claimOf b x = .opened stored body := (begun_claim _ b x).symm.trans h
      obtain rfl := claimOf_opened hclaim
      exact ⟨k, x, hclaim, log, [], rfl, fun _ he => absurd he List.not_mem_nil⟩
    | finishKey k e =>
      simp only [watch, Ghost.finished] at h
      split at h
      · cases h
      · rename_i hne
        exact absurd h (hne _ _)
    | releaseKey k =>
      simp only [watch, Ghost.given] at h
      split at h
      · cases h
      · rename_i hne
        exact absurd h (hne _ _)
    | _ => exact hkeep rfl rfl

end

section
variable {srv : Server} {t : Task} {p : M (Option Event)} {pre post log : List (Effect.Event Op Ans)}
  {key : String} {body : Bytes} {r : Except StoreError (Option IdemEntry)} {e : Effect.Event Op Ans}

theorem allowed (h : (t.run srv).Run (pre ++ e :: post) p) :
    (rules srv).ok ((rules srv).after (ghost t) pre) e.op :=
  Monitor.ok_run h (run_spec srv (fun _ => True) t) (Monitor.relied_of_may (rules_may srv) _ _)

theorem next_allowed {o : Op} {k : Ans o → M (Option Event)} (h : (t.run srv).Run log (.op o k)) :
    (rules srv).ok ((rules srv).after (ghost t) log) o :=
  (Monitor.wp_run h (run_spec srv (fun _ => True) t) (Monitor.relied_of_may (rules_may srv) _ _)).1

/-- A request asks for its own key, and once. -/
theorem begin_allowed (h : (t.run srv).Run (pre ++ ⟨.beginKey key body, r⟩ :: post) p) :
    (ghost t).key = key ∧ key ≠ "" ∧ ((rules srv).after (ghost t) pre).claim = .none := by
  obtain ⟨hkey, hne, hclaim⟩ := allowed h
  rw [after_key] at hkey hne
  exact ⟨hkey.symm, hkey ▸ hne, hclaim⟩

/-- A claim stays what it is until it is settled. -/
theorem claim_stays (h : (t.run srv).Run (pre ++ post) p)
    (hclaim : ((rules srv).after (ghost t) pre).claim ≠ .none)
    (hpost : Closed ((rules srv).after (ghost t) pre).claim ∨ ∀ e ∈ post, settles e = false) :
    ((rules srv).after (ghost t) (pre ++ post)).claim = ((rules srv).after (ghost t) pre).claim := by
  refine Monitor.inv_run (I := fun g => g.claim = ((rules srv).after (ghost t) pre).claim) h
    (run_spec srv (fun _ => True) t) (Monitor.relied_of_may (rules_may srv) _ _) rfl ?_
  rintro ⟨o, x⟩ he g hg hok
  have hopen : g.Open → ∀ e ∈ post, settles e = false := by
    rintro ⟨stored, body, ho⟩
    rcases hpost with hclosed | hpost
    · rw [← hg, ho] at hclosed
      exact hclosed.elim
    · exact hpost
  cases o with
  | beginKey k b =>
    obtain ⟨-, -, hnone⟩ := hok
    exact absurd (hg.symm.trans hnone) hclaim
  | finishKey k entry =>
    obtain ⟨-, -, -, stored, body, ho, -⟩ := hok
    have hf := hopen ⟨stored, body, ho⟩ _ he
    cases hf
  | releaseKey k =>
    have hf := hopen hok.2.1 _ he
    cases hf
  | _ => exact ((next_frame srv (fun _ => True) g _ x).claim rfl).trans hg

theorem unsettled_claim (h : (t.run srv).Run log p) (hu : Unsettled key body r log) :
    (ghost t).key = key ∧ key ≠ "" ∧
      ((rules srv).after (ghost t) log).claim = claimOf body r := by
  obtain ⟨pre, post, rfl, hpost⟩ := hu
  obtain ⟨hkey, hne, -⟩ := begin_allowed h
  refine ⟨hkey, hne, ?_⟩
  have hbegun : ((rules srv).after (ghost t) (pre ++ [⟨.beginKey key body, r⟩])).claim =
      claimOf body r := by
    rw [Monitor.after_append]
    exact begun_claim _ body r
  rw [List.append_cons] at h ⊢
  rw [claim_stays h (by rw [hbegun]; exact claimOf_ne_none body r) (.inr hpost), hbegun]

/-- An answer with which the request does not go on is the last word about its key. -/
theorem refused_claim (h : (t.run srv).Run log p)
    (hmem : (⟨.beginKey key body, r⟩ : Effect.Event Op Ans) ∈ log) (hr : Closed (claimOf body r)) :
    (ghost t).key = key ∧ key ≠ "" ∧
      ((rules srv).after (ghost t) log).claim = claimOf body r := by
  obtain ⟨pre, post, rfl⟩ := List.append_of_mem hmem
  obtain ⟨hkey, hne, -⟩ := begin_allowed h
  refine ⟨hkey, hne, ?_⟩
  have hbegun : ((rules srv).after (ghost t) (pre ++ [⟨.beginKey key body, r⟩])).claim =
      claimOf body r := by
    rw [Monitor.after_append]
    exact begun_claim _ body r
  rw [List.append_cons] at h ⊢
  rw [claim_stays h (by rw [hbegun]; exact claimOf_ne_none body r) (.inl (by rwa [hbegun])), hbegun]

/-- A claim that has let its request through stays one. -/
theorem entered_stays (h : (t.run srv).Run (pre ++ post) p)
    (hclaim : Entered ((rules srv).after (ghost t) pre).claim) :
    Entered ((rules srv).after (ghost t) (pre ++ post)).claim := by
  refine Monitor.inv_run (I := fun g => Entered g.claim) h (run_spec srv (fun _ => True) t)
    (Monitor.relied_of_may (rules_may srv) _ _) hclaim ?_
  rintro ⟨o, x⟩ - g hg hok
  cases o with
  | beginKey k b =>
    obtain ⟨-, -, hnone⟩ := hok
    rw [hnone] at hg
    exact hg.elim
  | finishKey k entry =>
    obtain ⟨-, -, -, stored, body, ho, -⟩ := hok
    simp [watch, Ghost.finished, ho, Entered]
  | releaseKey k =>
    obtain ⟨stored, body, ho⟩ := hok.2.1
    simp [watch, Ghost.given, ho, Entered]
  | _ =>
    rw [(next_frame srv (fun _ => True) g _ x).claim rfl]
    exact hg

/-- A request that was not let through contacts no provider and leaves its key alone. -/
theorem idle_of_closed (h : (t.run srv).Run log p) (hkey : (ghost t).key ≠ "")
    (hclaim : ¬ Entered ((rules srv).after (ghost t) log).claim) :
    ∀ e ∈ log, sends e = false ∧ settles e = false := by
  intro e he
  obtain ⟨pre, post, rfl⟩ := List.append_of_mem he
  have hnot : ¬ Entered ((rules srv).after (ghost t) pre).claim :=
    fun hentered => hclaim (entered_stays h hentered)
  have hnone : ¬ ((rules srv).after (ghost t) pre).Open := by
    rintro ⟨stored, body, ho⟩
    rw [ho] at hnot
    exact hnot trivial
  have hok := allowed h
  obtain ⟨o, x⟩ := e
  cases o with
  | send u =>
    rcases hok with hcheck | ⟨hopen, -⟩
    · rw [after_check] at hcheck
      cases t with
      | chat r => cases hcheck
      | probeProviders => exact absurd rfl hkey
    · exact absurd (hopen (by rwa [after_key])) hnone
  | finishKey k entry =>
    obtain ⟨-, -, -, stored, body, ho, -⟩ := hok
    exact absurd ⟨stored, body, ho⟩ hnone
  | releaseKey k => exact absurd hok.2.1 hnone
  | _ => exact ⟨rfl, rfl⟩

/-- A key that has been asked for is not as if it had not. -/
theorem asked_stays (h : (t.run srv).Run (pre ++ post) p)
    (hclaim : ((rules srv).after (ghost t) pre).claim ≠ .none) :
    ((rules srv).after (ghost t) (pre ++ post)).claim ≠ .none := by
  refine Monitor.inv_run (I := fun g => g.claim ≠ .none) h (run_spec srv (fun _ => True) t)
    (Monitor.relied_of_may (rules_may srv) _ _) hclaim ?_
  rintro ⟨o, x⟩ - g hg hok
  cases o with
  | beginKey k b => exact absurd hok.2.2 hg
  | finishKey k entry =>
    obtain ⟨-, -, -, stored, body, ho, -⟩ := hok
    simp [watch, Ghost.finished, ho]
  | releaseKey k =>
    obtain ⟨stored, body, ho⟩ := hok.2.1
    simp [watch, Ghost.given, ho]
  | _ =>
    rw [(next_frame srv (fun _ => True) g _ x).claim rfl]
    exact hg

/-- A key is asked for once. -/
theorem asked_once (h : (t.run srv).Run (pre ++ ⟨.beginKey key body, r⟩ :: post) p) :
    ∀ e ∈ post, ∀ k b r', e ≠ ⟨.beginKey k b, r'⟩ := by
  rintro e he k b r' rfl
  obtain ⟨mid, rest, rfl⟩ := List.append_of_mem he
  rw [List.append_cons, ← List.append_assoc] at h
  obtain ⟨-, -, hnone⟩ := begin_allowed h
  obtain ⟨q, hq, -⟩ := h.split
  refine asked_stays hq ?_ hnone
  rw [Monitor.after_append]
  exact (begun_claim _ body r).symm ▸ claimOf_ne_none body r

/-- What was recorded for a key stays recorded. -/
theorem finished_claim {e : IdemEntry} (h : (t.run srv).Run log p)
    (hmem : (⟨.finishKey key e, ()⟩ : Effect.Event Op Ans) ∈ log) :
    (ghost t).key = key ∧ ∃ stored body r,
      ((rules srv).after (ghost t) log).claim = .recorded stored body e ∧
      claimOf body r = .opened stored body ∧
      (⟨.beginKey key body, r⟩ : Effect.Event Op Ans) ∈ log := by
  obtain ⟨pre, post, rfl⟩ := List.append_of_mem hmem
  obtain ⟨hkey, -, -, stored, body, hopen, -⟩ := allowed h
  rw [after_key] at hkey
  have hclaim : ((rules srv).after (ghost t) (pre ++ [⟨.finishKey key e, ()⟩])).claim =
      .recorded stored body e := by
    rw [Monitor.after_append]
    change (Ghost.finished _ e).claim = _
    simp only [Ghost.finished, hopen]
  obtain ⟨key', r, hr, hu⟩ := unsettled_of_opened (ghost_claim t) hopen
  obtain ⟨q, hpre, -⟩ := h.split
  obtain rfl := hkey.trans (unsettled_claim hpre hu).1
  refine ⟨hkey.symm, stored, body, r, ?_, hr, List.mem_append_left _ hu.mem⟩
  rw [List.append_cons] at h ⊢
  rw [claim_stays h (by rw [hclaim]; rintro ⟨⟩) (.inl (by rw [hclaim]; trivial)), hclaim]

/-- The request holds `key`, claimed with `body`. -/
def Holds (key : String) (body : Bytes) (g : Ghost) : Prop :=
  g.key = key ∧ g.claim = .opened true body

/-- The request has gone on without an entry for `key`. -/
def Loose (key : String) (body : Bytes) (g : Ghost) : Prop :=
  g.key = key ∧ g.claim = .opened false body

theorem inFlight_iff (h : (t.run srv).Run log p) :
    InFlight key body log ↔ Holds key body ((rules srv).after (ghost t) log) := by
  rw [Holds, after_key]
  constructor
  · intro hu
    obtain ⟨hkey, -, hclaim⟩ := unsettled_claim h hu
    exact ⟨hkey, hclaim⟩
  · rintro ⟨hkey, hclaim⟩
    obtain ⟨key', r, hr, hu⟩ := unsettled_of_opened (ghost_claim t) hclaim
    obtain rfl := hkey.symm.trans (unsettled_claim h hu).1
    rcases r with e | prior
    · cases e <;> cases hr
    · cases prior with
      | none => exact hu
      | some e => cases hr

theorem unstored_iff (h : (t.run srv).Run log p) :
    Unstored key body log ↔ Loose key body ((rules srv).after (ghost t) log) := by
  rw [Loose, after_key]
  constructor
  · rintro (hu | hu)
    · obtain ⟨hkey, -, hclaim⟩ := unsettled_claim h hu
      exact ⟨hkey, hclaim⟩
    · obtain ⟨hkey, -, hclaim⟩ := unsettled_claim h hu
      exact ⟨hkey, hclaim⟩
  · rintro ⟨hkey, hclaim⟩
    obtain ⟨key', r, hr, hu⟩ := unsettled_of_opened (ghost_claim t) hclaim
    obtain rfl := hkey.symm.trans (unsettled_claim h hu).1
    rcases r with e | prior
    · cases e with
      | full => exact .inl hu
      | disk => exact .inr hu
      | _ => cases hr
    · cases prior <;> cases hr

end

end Switchboard.Proofs.Holding
