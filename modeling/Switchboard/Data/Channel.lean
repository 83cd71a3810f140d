import Mathlib

namespace Switchboard.Data

/-- A buffered channel that may be closed. -/
structure Channel (α : Type) where
  buffer : List α := []
  closed : Bool := false
deriving DecidableEq, Repr

/-- What becomes of a send that does not wait. -/
inductive Sent where
  | sent
  | full
  | panicked
deriving DecidableEq, Repr

/-- What a receiver finds. -/
inductive Received (α : Type) where
  | got (a : α) (rest : Channel α)
  | ended
  | waits

namespace Channel
variable {α : Type}

/-- A send with a default: it panics on a closed channel, and gives up on a full one. -/
def trySend (cap : Nat) (c : Channel α) (a : α) : Sent × Channel α :=
  if c.closed then (.panicked, c)
  else if c.buffer.length < cap then (.sent, { c with buffer := c.buffer ++ [a] })
  else (.full, c)

/-- A closed channel still gives what is in it. -/
def receive (c : Channel α) : Received α :=
  match c.buffer with
  | a :: rest => .got a { c with buffer := rest }
  | [] => if c.closed then .ended else .waits

/-- Closing a closed channel panics. -/
def close (c : Channel α) : Option (Channel α) :=
  if c.closed then none else some { c with closed := true }

theorem trySend_cases {cap : Nat} {c c' : Channel α} {a : α} {r : Sent}
    (h : c.trySend cap a = (r, c')) :
    r = .panicked ∧ c.closed = true ∧ c' = c ∨
      r = .sent ∧ c.closed = false ∧ c' = { c with buffer := c.buffer ++ [a] } ∨
      r = .full ∧ c.closed = false ∧ c' = c := by
  unfold trySend at h
  split at h
  · rename_i hclosed
    obtain ⟨rfl, rfl⟩ := Prod.mk.inj h
    exact .inl ⟨rfl, hclosed, rfl⟩
  · rename_i hopen
    have hopen : c.closed = false := by simpa using hopen
    split at h
    · obtain ⟨rfl, rfl⟩ := Prod.mk.inj h
      exact .inr (.inl ⟨rfl, hopen, rfl⟩)
    · obtain ⟨rfl, rfl⟩ := Prod.mk.inj h
      exact .inr (.inr ⟨rfl, hopen, rfl⟩)

theorem receive_got {c rest : Channel α} {a : α} (h : c.receive = .got a rest) :
    c.buffer = a :: rest.buffer ∧ rest.closed = c.closed := by
  unfold receive at h
  split at h
  · rename_i hbuffer
    cases h
    exact ⟨hbuffer, rfl⟩
  · split at h <;> cases h

theorem receive_ended {c : Channel α} (h : c.receive = .ended) : c.buffer = [] ∧ c.closed = true := by
  unfold receive at h
  split at h
  · cases h
  · rename_i hbuffer
    split at h
    · rename_i hclosed
      exact ⟨hbuffer, hclosed⟩
    · cases h

end Channel

end Switchboard.Data
