import Switchboard.Data.Channel
import Switchboard.Effect.Pool
import Switchboard.Text.Strings

namespace Switchboard.Gateway
open Text Data
open Effect (Prog Driver)

/-- The atomic steps of the log writer's callers. A record in the queue is the copy that a call
has made, so it is known by that call. -/
inductive LogOp (ι : Type) where
  | loadClosed
  | trySend (i : ι) (b : Bytes)
  | addDropped
  | compareAndSwap
  | closeQueue
  | waitDrained

@[reducible] def LogAns {ι : Type} : LogOp ι → Type
  | .loadClosed => Bool
  | .trySend _ _ => Sent
  | .addDropped => Unit
  | .compareAndSwap => Bool
  | .closeQueue => Bool
  | .waitDrained => Unit

/-- How a call ends. -/
inductive LogEnd where
  | returned
  | panicked
deriving DecidableEq, Repr

/-- Where the draining goroutine is: at the head of its loop, about to write a record, about to
count one that could not be written, or gone. -/
inductive Drainer (ι : Type) where
  | ranging
  | holding (record : ι × Bytes)
  | failed
  | done
deriving DecidableEq, Repr

/-- The log writer, with what has been handed to the output and whether that went well. -/
structure AsyncLogWriter (ι : Type) where
  queue : Channel (ι × Bytes) := {}
  closed : Bool := false
  dropped : Int := 0
  drainer : Drainer ι := .ranging
  handed : List ((ι × Bytes) × Bool) := []

/-- The room in the queue. -/
def logQueue : Nat := 1024

namespace AsyncLogWriter
variable {ι : Type}

def loadClosed : Prog (LogOp ι) LogAns Bool := Prog.call LogOp.loadClosed

def trySend (i : ι) (b : Bytes) : Prog (LogOp ι) LogAns Sent := Prog.call (LogOp.trySend i b)

def addDropped : Prog (LogOp ι) LogAns Unit := Prog.call LogOp.addDropped

def compareAndSwap : Prog (LogOp ι) LogAns Bool := Prog.call LogOp.compareAndSwap

def closeQueue : Prog (LogOp ι) LogAns Bool := Prog.call LogOp.closeQueue

def waitDrained : Prog (LogOp ι) LogAns Unit := Prog.call LogOp.waitDrained

/-- `Write`, as called by `i`. -/
def write (i : ι) (b : Bytes) : Prog (LogOp ι) LogAns LogEnd := do
  if ← loadClosed then
    addDropped
    pure .returned
  else
    match ← trySend i b with
    | .sent => pure .returned
    | .full =>
      addDropped
      pure .returned
    | .panicked => pure .panicked

def close : Prog (LogOp ι) LogAns LogEnd := do
  if ← compareAndSwap then
    if ← closeQueue then
      waitDrained
      pure .returned
    else pure .panicked
  else
    waitDrained
    pure .returned

/-- The steps of the draining goroutine. -/
inductive Drain where
  | receive
  | write (ok : Bool)
  | count

def drain (w : AsyncLogWriter ι) : Drain → Option (AsyncLogWriter ι)
  | .receive =>
    match w.drainer with
    | .ranging =>
      match w.queue.receive with
      | .got record rest => some { w with queue := rest, drainer := .holding record }
      | .ended => some { w with drainer := .done }
      | .waits => none
    | _ => none
  | .write ok =>
    match w.drainer with
    | .holding record =>
      some { w with handed := w.handed ++ [(record, ok)], drainer := if ok then .ranging else .failed }
    | _ => none
  | .count =>
    match w.drainer with
    | .failed => some { w with dropped := w.dropped + 1, drainer := .ranging }
    | _ => none

def perform (w : AsyncLogWriter ι) : (o : LogOp ι) → Option (LogAns o × AsyncLogWriter ι)
  | .loadClosed => some (w.closed, w)
  | .trySend i b =>
    let (outcome, queue) := w.queue.trySend logQueue (i, b)
    some (outcome, { w with queue := queue })
  | .addDropped => some ((), { w with dropped := w.dropped + 1 })
  | .compareAndSwap => some (!w.closed, { w with closed := true })
  | .closeQueue =>
    match w.queue.close with
    | some queue => some (true, { w with queue := queue })
    | none => some (false, w)
  | .waitDrained =>
    match w.drainer with
    | .done => some ((), w)
    | _ => none

/-- The callers beside the draining goroutine. -/
def logging : Driver (LogOp ι) LogAns (AsyncLogWriter ι) Unit Drain where
  perform w o _ := w.perform o
  change := drain

end AsyncLogWriter

/-- A call on the log writer. -/
inductive LogCall where
  | write (b : Bytes)
  | close

def LogCall.prog {ι : Type} (i : ι) : LogCall → Prog (LogOp ι) LogAns LogEnd
  | .write b => AsyncLogWriter.write i b
  | .close => AsyncLogWriter.close

end Switchboard.Gateway
