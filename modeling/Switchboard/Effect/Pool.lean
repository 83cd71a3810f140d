import Switchboard.Effect.Program

namespace Switchboard.Effect

/-- What the operations do to a shared state, and what may happen to it between
operations without any program's doing. -/
structure Machine (Op : Type) (Ans : Op → Type) (σ : Type) where
  step : σ → (o : Op) → Ans o → σ → Prop
  env : σ → σ → Prop

/-- A pool of programs over one shared state. `log` keeps what each program has
performed so far. -/
structure Conf (Op : Type) (Ans : Op → Type) (σ ι α : Type) where
  state : σ
  prog : ι → Prog Op Ans α
  log : ι → List (Event Op Ans)

variable {Op : Type} {Ans : Op → Type} {σ ι α γ : Type} [DecidableEq ι]

namespace Conf

/-- Program `i` has performed `e` and goes on as `p`. -/
def advance (c : Conf Op Ans σ ι α) (i : ι) (e : Event Op Ans) (p : Prog Op Ans α) (s : σ) :
    Conf Op Ans σ ι α :=
  ⟨s, Function.update c.prog i p, Function.update c.log i (c.log i ++ [e])⟩

/-- The pool before anything has happened. -/
def start (s : σ) (prog : ι → Prog Op Ans α) : Conf Op Ans σ ι α := ⟨s, prog, fun _ => []⟩

@[simp] theorem advance_log_self (c : Conf Op Ans σ ι α) (i : ι) (e : Event Op Ans)
    (p : Prog Op Ans α) (s : σ) : (c.advance i e p s).log i = c.log i ++ [e] := by
  simp [advance]

@[simp] theorem advance_log_other (c : Conf Op Ans σ ι α) {i j : ι} (h : j ≠ i)
    (e : Event Op Ans) (p : Prog Op Ans α) (s : σ) : (c.advance i e p s).log j = c.log j := by
  simp [advance, h]

@[simp] theorem advance_prog_self (c : Conf Op Ans σ ι α) (i : ι) (e : Event Op Ans)
    (p : Prog Op Ans α) (s : σ) : (c.advance i e p s).prog i = p := by
  simp [advance]

@[simp] theorem advance_prog_other (c : Conf Op Ans σ ι α) {i j : ι} (h : j ≠ i)
    (e : Event Op Ans) (p : Prog Op Ans α) (s : σ) : (c.advance i e p s).prog j = c.prog j := by
  simp [advance, h]

end Conf

/-- A condition on the moves of a pool. On one of program `i`, it sees the configuration
before the move, the operation with its answer, and the shared state after it. -/
structure Condition (Op : Type) (Ans : Op → Type) (σ ι α : Type) where
  run : Conf Op Ans σ ι α → ι → Event Op Ans → σ → Prop := fun _ _ _ _ => True
  env : Conf Op Ans σ ι α → σ → Prop := fun _ _ => True

namespace Machine

/-- Any program may move next, and the environment may move between them. -/
inductive Move (M : Machine Op Ans σ) (P : Condition Op Ans σ ι α) :
    Conf Op Ans σ ι α → Conf Op Ans σ ι α → Prop where
  | run (c : Conf Op Ans σ ι α) (i : ι) (o : Op) (k : Ans o → Prog Op Ans α) (x : Ans o) (s : σ)
      (hp : c.prog i = .op o k) (hs : M.step c.state o x s) (hc : P.run c i ⟨o, x⟩ s) :
      Move M P c (c.advance i ⟨o, x⟩ (k x) s)
  | env (c : Conf Op Ans σ ι α) (s : σ) (he : M.env c.state s) (hc : P.env c s) :
      Move M P c { c with state := s }

/-- Some interleaving, every move of which meets `P`, leads from `c` to `d`. -/
def Reaches (M : Machine Op Ans σ) (P : Condition Op Ans σ ι α) :
    Conf Op Ans σ ι α → Conf Op Ans σ ι α → Prop :=
  Relation.ReflTransGen (M.Move P)

/-- No condition on the moves. -/
def anyMove : Condition Op Ans σ ι α := {}

/-- Everybody's bookkeeping after a move of program `i`. -/
theorem advance_after (G : Monitor Op Ans γ) (g : ι → γ) (d : Conf Op Ans σ ι α) (i : ι) (o : Op)
    (x : Ans o) (p : Prog Op Ans α) (s : σ) :
    (fun j => G.after (g j) ((d.advance i ⟨o, x⟩ p s).log j)) =
      Function.update (fun j => G.after (g j) (d.log j)) i (G.next (G.after (g i) (d.log i)) o x) := by
  funext j
  by_cases hj : j = i
  · subst j
    simp [Monitor.after_append]
  · simp [hj]

/-- The rule for concurrent programs. Each program alone meets its monitor. If an
invariant over the shared state and everybody's bookkeeping survives every
permitted operation, and answers are then as relied upon, it holds throughout. -/
theorem invariant {M : Machine Op Ans σ} {P : Condition Op Ans σ ι α} {G : Monitor Op Ans γ}
    {Q : ι → α → γ → Prop} {g : ι → γ} {I : σ → (ι → γ) → Prop} {s : σ}
    {prog : ι → Prog Op Ans α} (hprog : ∀ i, G.wp (Q i) (prog i) (g i)) (hinit : I s g)
    (henv : ∀ (c : Conf Op Ans σ ι α) (s' : σ), M.Reaches P (.start s prog) c →
      I c.state (fun j => G.after (g j) (c.log j)) → M.env c.state s' → P.env c s' →
      I s' (fun j => G.after (g j) (c.log j)))
    (hstep : ∀ (c : Conf Op Ans σ ι α) (i : ι) (o : Op) (x : Ans o) (s' : σ),
      M.Reaches P (.start s prog) c → I c.state (fun j => G.after (g j) (c.log j)) →
      G.ok (G.after (g i) (c.log i)) o →
      M.step c.state o x s' → P.run c i ⟨o, x⟩ s' →
      G.may (G.after (g i) (c.log i)) o x ∧
        I s' (Function.update (fun j => G.after (g j) (c.log j)) i
          (G.next (G.after (g i) (c.log i)) o x)))
    {c : Conf Op Ans σ ι α} (hr : M.Reaches P (.start s prog) c) :
    I c.state (fun j => G.after (g j) (c.log j)) ∧
      ∀ i, G.wp (Q i) (c.prog i) (G.after (g i) (c.log i)) := by
  induction hr with
  | refl => exact ⟨hinit, hprog⟩
  | tail hd hm ih =>
    rename_i d _
    obtain ⟨hinv, hwp⟩ := ih
    cases hm with
    | env s' he hc => exact ⟨henv d s' hd hinv he hc, hwp⟩
    | run i o k x s' hp hs hc =>
      have hi := hwp i
      rw [hp] at hi
      obtain ⟨hmay, hnext⟩ := hstep d i o x s' hd hinv hi.1 hs hc
      rw [advance_after]
      refine ⟨hnext, fun j => ?_⟩
      by_cases hj : j = i
      · subst j
        simpa [Monitor.after_append] using hi.2 x hmay
      · simpa [hj] using hwp j

/-- The rule for answers. If an invariant over the shared state and everybody's bookkeeping
survives every operation, and answers are then as relied upon, they have been so throughout. -/
theorem relied {M : Machine Op Ans σ} {P : Condition Op Ans σ ι α} {G : Monitor Op Ans γ} {g : ι → γ}
    {I : σ → (ι → γ) → Prop} {s : σ} {prog : ι → Prog Op Ans α} (hinit : I s g)
    (henv : ∀ (s s' : σ) (h : ι → γ), I s h → M.env s s' → I s' h)
    (hstep : ∀ (s s' : σ) (h : ι → γ) (i : ι) (o : Op) (x : Ans o), I s h → M.step s o x s' →
      G.may (h i) o x ∧ I s' (Function.update h i (G.next (h i) o x)))
    {c : Conf Op Ans σ ι α} (hr : M.Reaches P (.start s prog) c) :
    I c.state (fun j => G.after (g j) (c.log j)) ∧ ∀ i, G.Relied (g i) (c.log i) := by
  induction hr with
  | refl => exact ⟨hinit, fun _ => trivial⟩
  | tail _ hm ih =>
    rename_i d _ _
    obtain ⟨hinv, hrel⟩ := ih
    cases hm with
    | env s' he hc => exact ⟨henv _ _ _ hinv he, hrel⟩
    | run i o k x s' hp hs hc =>
      obtain ⟨hmay, hnext⟩ := hstep _ _ _ i o x hinv hs
      rw [advance_after]
      refine ⟨hnext, fun j => ?_⟩
      by_cases hj : j = i
      · subst j
        simpa using Monitor.relied_snoc (hrel i) hmay
      · simpa [hj] using hrel j

/-- What is true of every operation that can be performed is true of all that have been. -/
theorem logged {M : Machine Op Ans σ} {P : Condition Op Ans σ ι α} {L : Event Op Ans → Prop} {s : σ}
    {prog : ι → Prog Op Ans α}
    (hstep : ∀ (d : Conf Op Ans σ ι α) (i : ι) (o : Op) (x : Ans o) (s' : σ),
      M.Reaches P (.start s prog) d → M.step d.state o x s' → P.run d i ⟨o, x⟩ s' → L ⟨o, x⟩)
    {c : Conf Op Ans σ ι α} (hr : M.Reaches P (.start s prog) c) (i : ι) : ∀ e ∈ c.log i, L e := by
  induction hr with
  | refl =>
    intro e he
    cases he
  | tail hd hm ih =>
    cases hm with
    | env s' he hc => exact ih
    | run j o k x s' hp hs hc =>
      intro e he
      by_cases hj : i = j
      · subst j
        rw [Conf.advance_log_self] at he
        rcases List.mem_append.mp he with he | he
        · exact ih e he
        · rw [List.mem_singleton.mp he]
          exact hstep _ i o x s' hd hs hc
      · rw [Conf.advance_log_other _ hj] at he
        exact ih e he

/-- What has been performed stays performed. -/
theorem log_of_reaches {M : Machine Op Ans σ} {P : Condition Op Ans σ ι α} {c d : Conf Op Ans σ ι α}
    (hr : M.Reaches P c d) (i : ι) : ∃ tr, d.log i = c.log i ++ tr := by
  induction hr with
  | refl => exact ⟨[], (List.append_nil _).symm⟩
  | tail _ hm ih =>
    obtain ⟨tr, htr⟩ := ih
    cases hm with
    | env s' he hc => exact ⟨tr, htr⟩
    | run j o k x s' hp hs hc =>
      by_cases hj : i = j
      · subst j
        refine ⟨tr ++ [⟨o, x⟩], ?_⟩
        rw [Conf.advance_log_self, htr, List.append_assoc]
      · refine ⟨tr, ?_⟩
        rw [Conf.advance_log_other _ hj, htr]

/-- Each program's log is a partial run of it. -/
theorem run_of_reaches {M : Machine Op Ans σ} {P : Condition Op Ans σ ι α} {s : σ}
    {prog : ι → Prog Op Ans α} {c : Conf Op Ans σ ι α} (hr : M.Reaches P (.start s prog) c)
    (i : ι) : (prog i).Run (c.log i) (c.prog i) := by
  induction hr with
  | refl => exact .refl _
  | tail _ hm ih =>
    cases hm with
    | env s' he hc => exact ih
    | run j o k x s' hp hs hc =>
      by_cases hj : i = j
      · subst i
        rw [hp] at ih
        simpa using ih.snoc
      · simpa [hj] using ih

end Machine

/-- A machine that can be executed: an operation's effect depends on a choice of `χ`,
the environment's on one of `ε`. -/
structure Driver (Op : Type) (Ans : Op → Type) (σ χ ε : Type) where
  perform : σ → (o : Op) → χ → Option (Ans o × σ)
  change : σ → ε → Option σ

/-- What is done next in a run that is played: program `i` runs until it is about to
perform an operation of `stop`, or the environment moves. -/
inductive Turn (Op ι χ ε : Type) where
  | go (i : ι) (stop : Op → Bool) (choose : Op → χ)
  | env (e : ε)

namespace Driver
variable {χ ε : Type}

/-- The machine with every choice open. -/
def machine (D : Driver Op Ans σ χ ε) : Machine Op Ans σ where
  step s o x s' := ∃ ch, D.perform s o ch = some (x, s')
  env s s' := ∃ e, D.change s e = some s'

/-- A program that runs alone, with its choices made beforehand. -/
def exec (D : Driver Op Ans σ χ ε) (choose : Op → χ) : Prog Op Ans α → σ → Option (α × σ)
  | .ret a, s => some (a, s)
  | .op o k, s =>
    match D.perform s o (choose o) with
    | none => none
    | some (x, s) => D.exec choose (k x) s

theorem exec_call {D : Driver Op Ans σ χ ε} {choose : Op → χ} {o : Op} {f : Ans o → Prog Op Ans α} {s s' : σ}
    {x : Ans o} (h : D.perform s o (choose o) = some (x, s')) :
    D.exec choose (Prog.call o >>= f) s = D.exec choose (f x) s' := by
  rw [Prog.call_bind, exec, h]

/-- A program alone can get to a point `Q` describes. -/
inductive Leads (D : Driver Op Ans σ χ ε) (Q : Prog Op Ans α → σ → Prop) : Prog Op Ans α → σ → Prop where
  | here (p : Prog Op Ans α) (s : σ) (h : Q p s) : Leads D Q p s
  | step (o : Op) (k : Ans o → Prog Op Ans α) (s : σ) (choice : χ) (x : Ans o) (s' : σ)
      (h : D.perform s o choice = some (x, s')) (rest : Leads D Q (k x) s') : Leads D Q (.op o k) s

section
variable {D : Driver Op Ans σ χ ε} {Q : Prog Op Ans α → σ → Prop} {p : Prog Op Ans α} {s : σ}

/-- One more operation, whatever the program looks like. -/
theorem Leads.next {o : Op} {k : Ans o → Prog Op Ans α} {s' : σ} {x : Ans o} (choice : χ)
    (hp : p = .op o k) (h : D.perform s o choice = some (x, s')) (rest : D.Leads Q (k x) s') :
    D.Leads Q p s := by
  subst hp
  exact .step o k s choice x s' h rest

/-- What does not matter about the state can be forgotten. -/
theorem Leads.from {β : Type} (f : β → σ) (b : β) (hs : s = f b) (rest : ∀ b, D.Leads Q p (f b)) :
    D.Leads Q p s := by
  subst hs
  exact rest b

/-- What a program can do alone, it can do among others. -/
theorem Leads.reaches (h : D.Leads Q p s) {c : Conf Op Ans σ ι α} {i : ι} (hp : c.prog i = p)
    (hs : c.state = s) : ∃ d, D.machine.Reaches Machine.anyMove c d ∧ Q (d.prog i) d.state := by
  induction h generalizing c with
  | here p s h =>
    subst hp hs
    exact ⟨c, .refl, h⟩
  | step o k s choice x s' hx _ ih =>
    subst hs
    have hmove : D.machine.Move Machine.anyMove c (c.advance i ⟨o, x⟩ (k x) s') :=
      .run c i o k x s' hp ⟨choice, hx⟩ trivial
    obtain ⟨d, hd, hq⟩ := ih (c := c.advance i ⟨o, x⟩ (k x) s') (by simp) rfl
    exact ⟨d, .head hmove hd, hq⟩

end

section
variable (D : Driver Op Ans σ χ ε) (runs : Conf Op Ans σ ι α → ι → Event Op Ans → σ → Bool)
  (moves : Conf Op Ans σ ι α → σ → Bool)

/-- At most `n` operations of program `i`, as far as they are possible and pass the check. -/
def go (i : ι) (stop : Op → Bool) (choose : Op → χ) : Nat → Conf Op Ans σ ι α → Conf Op Ans σ ι α
  | 0, c => c
  | n + 1, c =>
    match c.prog i with
    | .ret _ => c
    | .op o k =>
      if stop o then c
      else
        match D.perform c.state o (choose o) with
        | none => c
        | some (x, s) =>
          if runs c i ⟨o, x⟩ s then go i stop choose n (c.advance i ⟨o, x⟩ (k x) s) else c

def turn (n : Nat) (c : Conf Op Ans σ ι α) : Turn Op ι χ ε → Conf Op Ans σ ι α
  | .go i stop choose => D.go runs i stop choose n c
  | .env e =>
    match D.change c.state e with
    | none => c
    | some s => if moves c s then { c with state := s } else c

/-- The configuration after a list of turns, each of at most `n` operations. -/
def play (n : Nat) (ts : List (Turn Op ι χ ε)) (c : Conf Op Ans σ ι α) : Conf Op Ans σ ι α :=
  ts.foldl (D.turn runs moves n) c

variable {D runs moves} {P : Condition Op Ans σ ι α}

theorem go_reaches (hruns : ∀ c i e s, runs c i e s = true → P.run c i e s) (i : ι)
    (stop : Op → Bool) (choose : Op → χ) (n : Nat) (c : Conf Op Ans σ ι α) :
    D.machine.Reaches P c (D.go runs i stop choose n c) := by
  induction n generalizing c with
  | zero => exact .refl
  | succ n ih =>
    unfold go
    split
    · exact .refl
    · rename_i o k hp
      split
      · exact .refl
      split
      · exact .refl
      · rename_i x s hs
        split
        · rename_i hok
          exact .head (.run c i o k x s hp ⟨_, hs⟩ (hruns _ _ _ _ hok)) (ih _)
        · exact .refl

/-- A run that is played is a run of the machine. -/
theorem play_reaches (hruns : ∀ c i e s, runs c i e s = true → P.run c i e s)
    (hmoves : ∀ c s, moves c s = true → P.env c s) (n : Nat) (ts : List (Turn Op ι χ ε))
    (c : Conf Op Ans σ ι α) : D.machine.Reaches P c (D.play runs moves n ts c) := by
  induction ts generalizing c with
  | nil => exact .refl
  | cons t ts ih =>
    have hturn : D.machine.Reaches P c (D.turn runs moves n c t) := by
      cases t with
      | go i stop choose => exact go_reaches hruns i stop choose n c
      | env e =>
        unfold turn
        dsimp only
        split
        · exact .refl
        · rename_i s hs
          split
          · rename_i hok
            exact .single (.env c s ⟨e, hs⟩ (hmoves _ _ hok))
          · exact .refl
    exact hturn.trans (ih _)

end

end Driver

end Switchboard.Effect
