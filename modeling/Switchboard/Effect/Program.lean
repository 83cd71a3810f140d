import Mathlib

namespace Switchboard.Effect

/-- A program over atomic operations: operation `o` is answered by a value of
`Ans o`, and the answer selects the rest of the program. -/
inductive Prog (Op : Type) (Ans : Op → Type) (α : Type) : Type where
  | ret (a : α) : Prog Op Ans α
  | op (o : Op) (k : Ans o → Prog Op Ans α) : Prog Op Ans α

/-- One performed operation with the answer it got. -/
structure Event (Op : Type) (Ans : Op → Type) where
  op : Op
  ans : Ans op

namespace Prog
variable {Op : Type} {Ans : Op → Type} {α β : Type}

def bind : Prog Op Ans α → (α → Prog Op Ans β) → Prog Op Ans β
  | .ret a, f => f a
  | .op o k, f => .op o (fun x => (k x).bind f)

instance : Monad (Prog Op Ans) where
  pure := .ret
  bind := .bind

/-- The program that performs one operation and returns its answer. -/
def call (o : Op) : Prog Op Ans (Ans o) := .op o .ret

@[simp] theorem ret_bind (a : α) (f : α → Prog Op Ans β) :
    ((.ret a : Prog Op Ans α) >>= f) = f a := rfl

@[simp] theorem op_bind (o : Op) (k : Ans o → Prog Op Ans α) (f : α → Prog Op Ans β) :
    ((.op o k : Prog Op Ans α) >>= f) = .op o (fun x => k x >>= f) := rfl

@[simp] theorem call_bind (o : Op) (f : Ans o → Prog Op Ans β) :
    ((call o : Prog Op Ans (Ans o)) >>= f) = .op o f := rfl

@[simp] theorem pure_def (a : α) : (pure a : Prog Op Ans α) = .ret a := rfl

theorem bind_assoc {γ : Type} (p : Prog Op Ans α) (f : α → Prog Op Ans β) (g : β → Prog Op Ans γ) :
    (p >>= f) >>= g = p >>= fun a => f a >>= g := by
  induction p with
  | ret a => rfl
  | op o k ih =>
    rw [op_bind, op_bind, op_bind]
    exact congrArg _ (funext ih)

theorem map_def (f : α → β) (p : Prog Op Ans α) : f <$> p = p >>= fun a => .ret (f a) := rfl

/-- Whatever the answers are, the result satisfies `Q`. -/
def Returns (Q : α → Prop) : Prog Op Ans α → Prop
  | .ret a => Q a
  | .op _ k => ∀ x, (k x).Returns Q

theorem Returns.mono {Q R : α → Prop} {p : Prog Op Ans α} (h : p.Returns Q) (hq : ∀ a, Q a → R a) :
    p.Returns R := by
  induction p with
  | ret a => exact hq a h
  | op o k ih => exact fun x => ih x (h x)

theorem Returns.bind {Q : α → Prop} {R : β → Prop} {p : Prog Op Ans α} {f : α → Prog Op Ans β}
    (h : p.Returns Q) (hf : ∀ a, Q a → (f a).Returns R) : (p >>= f).Returns R := by
  induction p with
  | ret a => exact hf a h
  | op o k ih => exact fun x => ih x (h x)

theorem returns_any (p : Prog Op Ans α) : p.Returns (fun _ => True) := by
  induction p with
  | ret a => trivial
  | op o k ih => exact ih

/-- A partial run: the performed operations in order, and what is left to do.
Every operation may be answered by any value of its type. -/
inductive Run : Prog Op Ans α → List (Event Op Ans) → Prog Op Ans α → Prop where
  | refl (p : Prog Op Ans α) : Run p [] p
  | step (o : Op) (k : Ans o → Prog Op Ans α) (x : Ans o) {tr : List (Event Op Ans)}
      {p : Prog Op Ans α} (rest : Run (k x) tr p) : Run (.op o k) (⟨o, x⟩ :: tr) p

/-- What a program has returned, if it has. -/
def result : Prog Op Ans α → Option α
  | .ret a => some a
  | .op _ _ => none

theorem eq_ret_of_result {p : Prog Op Ans α} {a : α} (h : p.result = some a) : p = .ret a := by
  cases p with
  | ret b =>
    cases h
    rfl
  | op o k => cases h

theorem Run.of_map {f : α → β} {p : Prog Op Ans α} {tr : List (Event Op Ans)} {b : β}
    (h : (f <$> p).Run tr (.ret b)) : ∃ a, p.Run tr (.ret a) ∧ b = f a := by
  induction p generalizing tr with
  | ret a =>
    cases h
    exact ⟨a, .refl _, rfl⟩
  | op o k ih =>
    cases h with
    | step _ _ x rest =>
      obtain ⟨a, hrun, rfl⟩ := ih x rest
      exact ⟨a, .step o k x hrun, rfl⟩

theorem Run.map {p : Prog Op Ans α} {tr : List (Event Op Ans)} {a : α} (h : p.Run tr (.ret a))
    (f : α → β) : (f <$> p).Run tr (.ret (f a)) := by
  generalize hq : Prog.ret a = q at h
  induction h with
  | refl p =>
    subst hq
    exact .refl _
  | step o k x rest ih => exact .step o _ x (ih hq)

theorem Run.snoc {p : Prog Op Ans α} {tr : List (Event Op Ans)} {o : Op}
    {k : Ans o → Prog Op Ans α} {x : Ans o} (h : p.Run tr (.op o k)) :
    p.Run (tr ++ [⟨o, x⟩]) (k x) := by
  generalize hq : Prog.op o k = q at h
  induction h with
  | refl p => subst hq; exact .step o k x (.refl _)
  | step o' k' x' rest ih => exact .step o' k' x' (ih hq)

/-- What has been run can be cut anywhere. -/
theorem Run.split {p q : Prog Op Ans α} {xs ys : List (Event Op Ans)} (h : p.Run (xs ++ ys) q) :
    ∃ r, p.Run xs r ∧ r.Run ys q := by
  induction xs generalizing p with
  | nil => exact ⟨p, .refl p, h⟩
  | cons e xs ih =>
    cases h with
    | step o k x rest =>
      obtain ⟨r, hxs, hys⟩ := ih rest
      exact ⟨r, .step o k x hxs, hys⟩

/-- A run of two programs one after the other is a run of each. -/
theorem Run.of_bind {p : Prog Op Ans α} {f : α → Prog Op Ans β} {tr : List (Event Op Ans)} {b : β}
    (h : (p >>= f).Run tr (.ret b)) :
    ∃ a xs ys, tr = xs ++ ys ∧ p.Run xs (.ret a) ∧ (f a).Run ys (.ret b) := by
  induction p generalizing tr with
  | ret a => exact ⟨a, [], tr, rfl, .refl _, h⟩
  | op o k ih =>
    cases h with
    | step _ _ x rest =>
      obtain ⟨a, xs, ys, rfl, hxs, hys⟩ := ih x rest
      exact ⟨a, ⟨o, x⟩ :: xs, ys, rfl, .step o k x hxs, hys⟩

/-- A run that begins with an operation. -/
theorem Run.of_call {o : Op} {f : Ans o → Prog Op Ans β} {tr : List (Event Op Ans)} {b : β}
    (h : (call o >>= f).Run tr (.ret b)) : ∃ x ys, tr = ⟨o, x⟩ :: ys ∧ (f x).Run ys (.ret b) := by
  rw [call_bind] at h
  cases h with
  | step _ _ x rest => exact ⟨x, _, rfl, rest⟩

/-- A program that has returned performs nothing more. -/
theorem Run.of_ret {a b : α} {tr : List (Event Op Ans)} (h : (ret a : Prog Op Ans α).Run tr (.ret b)) :
    tr = [] ∧ a = b := by
  cases h
  exact ⟨rfl, rfl⟩

theorem Returns.of_run {Q : α → Prop} {p : Prog Op Ans α} {tr : List (Event Op Ans)} {a : α}
    (h : p.Returns Q) (hr : p.Run tr (.ret a)) : Q a := by
  generalize hq : Prog.ret a = q at hr
  induction hr with
  | refl p =>
    subst hq
    exact h
  | step o k x rest ih => exact ih (h x) hq

theorem Run.trans {p q r : Prog Op Ans α} {xs ys : List (Event Op Ans)} (h : p.Run xs q)
    (h' : q.Run ys r) : p.Run (xs ++ ys) r := by
  induction h with
  | refl p => exact h'
  | step o k x rest ih => exact .step o k x (ih h')

/-- Every run that ends has a result and a log of which `Q` holds. -/
def Ensures (Q : α → List (Event Op Ans) → Prop) (p : Prog Op Ans α) : Prop :=
  ∀ tr a, p.Run tr (.ret a) → Q a tr

theorem Ensures.mono {Q R : α → List (Event Op Ans) → Prop} {p : Prog Op Ans α} (h : p.Ensures Q)
    (hq : ∀ a tr, Q a tr → R a tr) : p.Ensures R :=
  fun tr a hr => hq a tr (h tr a hr)

theorem ensures_ret {Q : α → List (Event Op Ans) → Prop} {a : α} (h : Q a []) :
    (ret a : Prog Op Ans α).Ensures Q := by
  intro tr b hr
  obtain ⟨rfl, rfl⟩ := hr.of_ret
  exact h

theorem Ensures.bind {P : α → List (Event Op Ans) → Prop} {Q : β → List (Event Op Ans) → Prop}
    {p : Prog Op Ans α} {f : α → Prog Op Ans β} (h : p.Ensures P)
    (hf : ∀ a tr, P a tr → (f a).Ensures (fun b tr' => Q b (tr ++ tr'))) : (p >>= f).Ensures Q := by
  intro tr b hr
  obtain ⟨a, xs, ys, rfl, hxs, hys⟩ := hr.of_bind
  exact hf a xs (h xs a hxs) ys b hys

theorem ensures_call {o : Op} {f : Ans o → Prog Op Ans β} {Q : β → List (Event Op Ans) → Prop}
    (h : ∀ x, (f x).Ensures (fun b tr => Q b (⟨o, x⟩ :: tr))) : (call o >>= f).Ensures Q := by
  intro tr b hr
  obtain ⟨x, ys, rfl, hys⟩ := hr.of_call
  exact h x ys b hys

/-- The run in which each operation gets a fixed answer. -/
def answered (answer : (o : Op) → Ans o) : Prog Op Ans α → List (Event Op Ans) × α
  | .ret a => ([], a)
  | .op o k => (⟨o, answer o⟩ :: ((k (answer o)).answered answer).1, ((k (answer o)).answered answer).2)

theorem run_answered (answer : (o : Op) → Ans o) (p : Prog Op Ans α) :
    p.Run (p.answered answer).1 (.ret (p.answered answer).2) := by
  induction p with
  | ret a => exact .refl _
  | op o k ih => exact .step o k (answer o) (ih (answer o))

theorem answered_ans {answer : (o : Op) → Ans o} {p : Prog Op Ans α} {e : Event Op Ans}
    (h : e ∈ (p.answered answer).1) : e.ans = answer e.op := by
  induction p with
  | ret a => cases h
  | op o k ih =>
    rcases List.mem_cons.mp h with rfl | h
    · rfl
    · exact ih _ h

theorem exists_run [h : ∀ o, Nonempty (Ans o)] (p : Prog Op Ans α) : ∃ tr a, p.Run tr (.ret a) :=
  ⟨_, _, run_answered (fun o => Classical.choice (h o)) p⟩

end Prog

/-- A monitor follows the operations of one program. `may` is what the program
relies on about an answer, `ok` is what it guarantees before an operation, and
`next` is the bookkeeping. -/
structure Monitor (Op : Type) (Ans : Op → Type) (γ : Type) where
  may : γ → (o : Op) → Ans o → Prop
  ok : γ → Op → Prop
  next : γ → (o : Op) → Ans o → γ

namespace Monitor
variable {Op : Type} {Ans : Op → Type} {γ α β : Type}

/-- The bookkeeping after a list of operations. -/
def after (G : Monitor Op Ans γ) (g : γ) (tr : List (Event Op Ans)) : γ :=
  tr.foldl (fun g e => G.next g e.op e.ans) g

@[simp] theorem after_nil (G : Monitor Op Ans γ) (g : γ) : G.after g [] = g := rfl

@[simp] theorem after_cons (G : Monitor Op Ans γ) (g : γ) (e : Event Op Ans)
    (tr : List (Event Op Ans)) : G.after g (e :: tr) = G.after (G.next g e.op e.ans) tr := rfl

theorem after_append (G : Monitor Op Ans γ) (g : γ) (xs ys : List (Event Op Ans)) :
    G.after g (xs ++ ys) = G.after (G.after g xs) ys := List.foldl_append

/-- Weakest precondition: every operation the program performs is permitted, and
`Q` holds of its result and the final bookkeeping. -/
def wp (G : Monitor Op Ans γ) (Q : α → γ → Prop) : Prog Op Ans α → γ → Prop
  | .ret a, g => Q a g
  | .op o k, g => G.ok g o ∧ ∀ x, G.may g o x → G.wp Q (k x) (G.next g o x)

@[simp] theorem wp_ret (G : Monitor Op Ans γ) (Q : α → γ → Prop) (a : α) (g : γ) :
    G.wp Q (.ret a) g ↔ Q a g := Iff.rfl

@[simp] theorem wp_op (G : Monitor Op Ans γ) (Q : α → γ → Prop) (o : Op)
    (k : Ans o → Prog Op Ans α) (g : γ) :
    G.wp Q (.op o k) g ↔ G.ok g o ∧ ∀ x, G.may g o x → G.wp Q (k x) (G.next g o x) := Iff.rfl

theorem wp_mono {G : Monitor Op Ans γ} {Q R : α → γ → Prop} {p : Prog Op Ans α} {g : γ}
    (h : G.wp Q p g) (hq : ∀ a g, Q a g → R a g) : G.wp R p g := by
  induction p generalizing g with
  | ret a => exact hq a g h
  | op o k ih => exact ⟨h.1, fun x hx => ih x (h.2 x hx)⟩

theorem wp_bind {G : Monitor Op Ans γ} {Q : β → γ → Prop} {p : Prog Op Ans α}
    {f : α → Prog Op Ans β} {g : γ} (h : G.wp (fun a g => G.wp Q (f a) g) p g) :
    G.wp Q (p >>= f) g := by
  induction p generalizing g with
  | ret a => exact h
  | op o k ih => exact ⟨h.1, fun x hx => ih x (h.2 x hx)⟩

@[simp] theorem wp_bind_iff {G : Monitor Op Ans γ} {Q : β → γ → Prop} {p : Prog Op Ans α}
    {f : α → Prog Op Ans β} {g : γ} :
    G.wp Q (p >>= f) g ↔ G.wp (fun a g => G.wp Q (f a) g) p g := by
  induction p generalizing g with
  | ret a => exact Iff.rfl
  | op o k ih =>
    refine ⟨fun h => ⟨h.1, fun x hx => (ih x).mp (h.2 x hx)⟩, fun h => wp_bind h⟩

/-- An operation about whose answer nothing is assumed. -/
theorem wp_guarded {G : Monitor Op Ans γ} {o : Op} {Q : Ans o → γ → Prop} {g : γ}
    (hm : ∀ x, G.may g o x) :
    G.wp Q (Prog.call o) g ↔ G.ok g o ∧ ∀ x, Q x (G.next g o x) :=
  ⟨fun h => ⟨h.1, fun x => h.2 x (hm x)⟩, fun h => ⟨h.1, fun x _ => h.2 x⟩⟩

/-- The same, for one that is always permitted. -/
theorem wp_known {G : Monitor Op Ans γ} {o : Op} {Q : Ans o → γ → Prop} {g : γ}
    (hok : G.ok g o) (hm : ∀ x, G.may g o x) :
    G.wp Q (Prog.call o) g ↔ ∀ x, Q x (G.next g o x) :=
  (wp_guarded hm).trans (and_iff_right hok)

/-- The same, for one that the bookkeeping ignores. -/
theorem wp_neutral {G : Monitor Op Ans γ} {o : Op} {Q : Ans o → γ → Prop} {g : γ}
    (hok : G.ok g o) (hm : ∀ x, G.may g o x) (hn : ∀ x, G.next g o x = g) :
    G.wp Q (Prog.call o) g ↔ ∀ x, Q x g := by
  rw [wp_known hok hm]
  simp only [hn]

/-- What is true of the result in any case may be added to a postcondition. -/
theorem wp_returns {G : Monitor Op Ans γ} {Q : α → γ → Prop} {R : α → Prop} {p : Prog Op Ans α}
    {g : γ} (h : G.wp Q p g) (hr : p.Returns R) : G.wp (fun a g => Q a g ∧ R a) p g := by
  induction p generalizing g with
  | ret a => exact ⟨h, hr⟩
  | op o k ih => exact ⟨h.1, fun x hx => ih x (h.2 x hx) (hr x)⟩

/-- Where nothing is assumed of the answers, the postcondition says something about every
result. -/
theorem returns_of_wp {G : Monitor Op Ans γ} {Q : α → γ → Prop} {R : α → Prop} {p : Prog Op Ans α}
    {g : γ} (hm : ∀ g o x, G.may g o x) (h : G.wp Q p g) (hq : ∀ a g, Q a g → R a) :
    p.Returns R := by
  induction p generalizing g with
  | ret a => exact hq a g h
  | op o k ih => exact fun x => ih x (h.2 x (hm g o x))

/-- Sequencing: the postcondition of the first part is the precondition of the rest. -/
theorem wp_seq {G : Monitor Op Ans γ} {R : α → γ → Prop} {Q : β → γ → Prop}
    {p : Prog Op Ans α} {f : α → Prog Op Ans β} {g : γ} (h : G.wp R p g)
    (hf : ∀ a g, R a g → G.wp Q (f a) g) : G.wp Q (p >>= f) g :=
  wp_bind (wp_mono h hf)

/-- What every single operation does to the bookkeeping, as a preorder, the program does
as a whole. -/
theorem wp_tracked {G : Monitor Op Ans γ} {Q : α → γ → Prop} {R : γ → γ → Prop}
    (hrefl : ∀ g, R g g) (htrans : ∀ a b c, R a b → R b c → R a c)
    (hstep : ∀ g o x, G.ok g o → G.may g o x → R g (G.next g o x)) {p : Prog Op Ans α} {g : γ}
    (h : G.wp Q p g) : G.wp (fun a g' => Q a g' ∧ R g g') p g := by
  induction p generalizing g with
  | ret a => exact ⟨h, hrefl g⟩
  | op o k ih =>
    refine ⟨h.1, fun x hx => wp_mono (ih x (h.2 x hx)) ?_⟩
    intro a g' hq
    exact ⟨hq.1, htrans _ _ _ (hstep g o x h.1 hx) hq.2⟩

/-- A program that keeps stricter rules keeps these. -/
theorem wp_relax {G H : Monitor Op Ans γ} {Q : α → γ → Prop} (hok : ∀ g o, H.ok g o → G.ok g o)
    (hmay : ∀ g o x, G.may g o x → H.may g o x) (hnext : ∀ g o x, H.next g o x = G.next g o x)
    {p : Prog Op Ans α} {g : γ} (h : H.wp Q p g) : G.wp Q p g := by
  induction p generalizing g with
  | ret a => exact h
  | op o k ih =>
    refine ⟨hok g o h.1, fun x hx => ih x ?_⟩
    rw [← hnext]
    exact h.2 x (hmay g o x hx)

/-- The answers of a list of operations were all as relied upon. -/
def Relied (G : Monitor Op Ans γ) (g : γ) : List (Event Op Ans) → Prop
  | [] => True
  | e :: tr => G.may g e.op e.ans ∧ G.Relied (G.next g e.op e.ans) tr

theorem relied_of_may {G : Monitor Op Ans γ} (h : ∀ g o x, G.may g o x) (g : γ)
    (tr : List (Event Op Ans)) : G.Relied g tr := by
  induction tr generalizing g with
  | nil => trivial
  | cons e tr ih => exact ⟨h _ _ _, ih _⟩

theorem relied_snoc {G : Monitor Op Ans γ} {g : γ} {tr : List (Event Op Ans)} {e : Event Op Ans}
    (h : G.Relied g tr) (he : G.may (G.after g tr) e.op e.ans) : G.Relied g (tr ++ [e]) := by
  induction tr generalizing g with
  | nil => exact ⟨he, trivial⟩
  | cons d tr ih => exact ⟨h.1, ih h.2 he⟩

/-- What is left after a partial run still meets the postcondition. -/
theorem wp_run {G : Monitor Op Ans γ} {Q : α → γ → Prop} {p p' : Prog Op Ans α}
    {tr : List (Event Op Ans)} {g : γ} (hr : p.Run tr p') (h : G.wp Q p g)
    (hm : G.Relied g tr) : G.wp Q p' (G.after g tr) := by
  induction hr generalizing g with
  | refl p => exact h
  | step o k x rest ih => exact ih (h.2 x hm.1) hm.2

/-- Each operation of a partial run was permitted when it was performed. -/
theorem ok_run {G : Monitor Op Ans γ} {Q : α → γ → Prop} {p p' : Prog Op Ans α}
    {pre post : List (Event Op Ans)} {e : Event Op Ans} {g : γ}
    (hr : p.Run (pre ++ e :: post) p') (h : G.wp Q p g)
    (hm : G.Relied g (pre ++ e :: post)) : G.ok (G.after g pre) e.op := by
  induction pre generalizing p g with
  | nil =>
    cases hr with
    | step o k x rest => exact h.1
  | cons d pre ih =>
    cases hr with
    | step o k x rest => exact ih rest (h.2 x hm.1) hm.2

/-- What the permitted operations of a partial run preserve holds after it. -/
theorem inv_run {G : Monitor Op Ans γ} {Q : α → γ → Prop} {I : γ → Prop} {p p' : Prog Op Ans α}
    {pre post : List (Event Op Ans)} {g : γ} (hr : p.Run (pre ++ post) p') (h : G.wp Q p g)
    (hm : G.Relied g (pre ++ post)) (hi : I (G.after g pre))
    (hstep : ∀ e ∈ post, ∀ g, I g → G.ok g e.op → I (G.next g e.op e.ans)) :
    I (G.after g (pre ++ post)) := by
  induction pre generalizing p g with
  | nil =>
    rw [List.nil_append] at hr hm ⊢
    induction hr generalizing g with
    | refl p => exact hi
    | step o k x rest ih =>
      have hnext := hstep ⟨o, x⟩ List.mem_cons_self _ hi h.1
      exact ih (fun e he => hstep e (List.mem_cons_of_mem _ he)) (h.2 x hm.1) hm.2 hnext
  | cons d pre ih =>
    cases hr with
    | step o k x rest => exact ih rest (h.2 x hm.1) hm.2 hi

/-- The monitor takes no interest in the operation. -/
def Ignored (G : Monitor Op Ans γ) (o : Op) : Prop := ∀ g, G.ok g o ∧ ∀ x, G.next g o x = g

/-- Only these operations are performed. -/
def only (P : Op → Prop) : Monitor Op Ans Unit where
  may _ _ _ := True
  ok _ := P
  next _ _ _ := ()

@[simp] theorem only_ok {P : Op → Prop} {g : Unit} {o : Op} :
    (only P : Monitor Op Ans Unit).ok g o ↔ P o := Iff.rfl

@[simp] theorem only_may {P : Op → Prop} {g : Unit} {o : Op} {x : Ans o} :
    (only P).may g o x ↔ True := Iff.rfl

@[simp] theorem only_next {P : Op → Prop} {g : Unit} {o : Op} {x : Ans o} :
    (only P).next g o x = () := rfl

/-- Whatever has been permitted is all that a run consists of. -/
theorem ensures_of_only {P : Op → Prop} {R : α → Prop} {p : Prog Op Ans α}
    (h : (only P).wp (fun a _ => R a) p ()) : p.Ensures (fun a tr => R a ∧ ∀ e ∈ tr, P e.op) := by
  intro tr a hr
  have hmay : ∀ tr, (only P : Monitor Op Ans Unit).Relied () tr :=
    relied_of_may (fun _ _ _ => trivial) ()
  refine ⟨wp_run hr h (hmay tr), fun e he => ?_⟩
  obtain ⟨pre, post, rfl⟩ := List.append_of_mem he
  exact ok_run hr h (hmay _)

end Monitor

namespace Prog
variable {Op : Type} {Ans : Op → Type} {α β : Type} {P P' : Op → Prop} {Q R : β → Prop}

/-- Only operations of `P` are performed, and `Q` holds of the result. -/
def Does (P : Op → Prop) (Q : β → Prop) (p : Prog Op Ans β) : Prop :=
  (Monitor.only P).wp (fun b _ => Q b) p ()

theorem Does.mono {p : Prog Op Ans β} (h : p.Does P Q) (hq : ∀ b, Q b → R b) : p.Does P R :=
  Monitor.wp_mono h (fun b _ => hq b)

theorem Does.returns {p : Prog Op Ans β} (h : p.Does P Q) (hr : p.Returns R) :
    p.Does P (fun b => Q b ∧ R b) :=
  Monitor.wp_returns h hr

/-- Where more is allowed, this is. -/
theorem Does.relax {p : Prog Op Ans β} (h : p.Does P Q) (hP : ∀ o, P o → P' o) : p.Does P' Q :=
  Monitor.wp_relax (G := Monitor.only P') (H := Monitor.only P) (fun _ => hP) (fun _ _ _ hm => hm)
    (fun _ _ _ => rfl) h

theorem Does.ensures {p : Prog Op Ans β} (h : p.Does P Q) :
    p.Ensures (fun b tr => Q b ∧ ∀ e ∈ tr, P e.op) :=
  Monitor.ensures_of_only h

section
variable {γ : Type} {G : Monitor Op Ans γ} {p : Prog Op Ans β}

/-- A monitor that permits these operations keeps what each of them keeps. -/
theorem Does.wp {I : γ → Prop} (h : p.Does P Q) (hok : ∀ g o, P o → G.ok g o)
    (hnext : ∀ g o x, P o → I g → I (G.next g o x)) {g : γ} (hg : I g) :
    G.wp (fun b g' => Q b ∧ I g') p g := by
  induction p generalizing g with
  | ret b => exact ⟨h, hg⟩
  | op o k ih => exact ⟨hok g o h.1, fun x _ => ih x (h.2 x trivial) (hnext g o x h.1 hg)⟩

/-- A monitor that takes no interest in these operations stays as it is. -/
theorem Does.wp_ignored {R : β → γ → Prop} {g : γ} (h : p.Does G.Ignored Q) (hr : ∀ b, Q b → R b g) :
    G.wp R p g := by
  have hsame := h.wp (I := (· = g)) (fun g' o ho => (ho g').1) (fun g' o x ho hg => ((ho g').2 x).trans hg) rfl
  refine Monitor.wp_mono hsame (fun b g' hb => ?_)
  rw [hb.2]
  exact hr b hb.1

/-- What may come after each of these operations may come after all of them. -/
theorem Does.lift {Φ : Prog Op Ans α → Prop} {f : β → Prog Op Ans α}
    (hcall : ∀ {o : Op} {k : Ans o → Prog Op Ans α}, P o → (∀ x, Φ (k x)) → Φ (call o >>= k))
    (h : p.Does P Q) (hf : ∀ b, Q b → Φ (f b)) : Φ (p >>= f) := by
  induction p with
  | ret b => exact hf b h
  | op o k ih => exact hcall h.1 (fun x => ih x (h.2 x trivial))

end

theorem does_ret {b : β} (h : Q b) : (pure b : Prog Op Ans β).Does P Q := h

theorem does_op {o : Op} (ho : P o) : (call o : Prog Op Ans (Ans o)).Does P (fun _ => True) :=
  ⟨ho, fun _ _ => trivial⟩

theorem does_bind {S : α → Prop} {p : Prog Op Ans α} {f : α → Prog Op Ans β} (hp : p.Does P S)
    (hf : ∀ a, S a → (f a).Does P Q) : (p >>= f).Does P Q :=
  Monitor.wp_seq hp (fun a _ => hf a)

theorem does_seq {p : Prog Op Ans α} {f : α → Prog Op Ans β} (hp : p.Does P (fun _ => True))
    (hf : ∀ a, (f a).Does P Q) : (p >>= f).Does P Q :=
  does_bind hp (fun a _ => hf a)

theorem does_call {o : Op} {f : Ans o → Prog Op Ans β} (ho : P o) (hf : ∀ x, (f x).Does P Q) :
    (call o >>= f).Does P Q :=
  does_seq (does_op ho) hf

end Prog

end Switchboard.Effect
