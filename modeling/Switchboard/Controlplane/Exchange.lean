import Switchboard.Controlplane.Telemetry
import Switchboard.Effect.Workers
import Switchboard.Gateway.PolicyCache
import Switchboard.Gateway.Telemetry

namespace Switchboard.Controlplane
open Text Gateway
open Gateway.Telemetry (SpoolOp SpoolAns SpoolMetric Reply)

/-- A gateway's spool and the control plane it delivers to. `written` has every file that ever
was in the spool, and nothing reads it; `dropped` has, in place of the number the process counts,
the events on whose account it was counted. A request that its sender has given up waits in
`late`, whether it will arrive or not. -/
structure Exchange where
  spool : List (String × Bytes) := []
  written : List (String × Bytes) := []
  metrics : SpoolMetric → Int := fun _ => 0
  dropped : List String := []
  perEvent : Bool := false
  table : TelemetryTable := {}
  late : List (String × Bytes) := []

/-- What becomes of a request: the control plane serves it and the answer arrives; something
on the way, or the control plane in trouble, answers without anything being done; or no answer
arrives. -/
inductive Fate where
  | served (v : Visit)
  | failed (r : Reply)
  | unanswered

/-- What is left to chance in a step. `renamed` is a file that is in its place while the call that
put it there reports an error, because something failed after the rename. -/
inductive SpoolChance where
  | quiet
  | flag (b : Bool)
  | renamed
  | fate (f : Fate)

def Response.reply (r : Response) : Reply := ⟨r.status, ⟨r.body, false⟩⟩

namespace Exchange

def setFile (path : String) (b : Bytes) (files : List (String × Bytes)) : List (String × Bytes) :=
  (path, b) :: files.filter (fun f => f.1 != path)

def removeFile (path : String) (files : List (String × Bytes)) : List (String × Bytes) :=
  files.filter (fun f => f.1 != path)

/-- A file is put in its place. -/
def put (x : Exchange) (path : String) (b : Bytes) : Exchange :=
  { x with spool := setFile path b x.spool, written := x.written ++ [(path, b)] }

/-- What happens to a request that is sent. -/
def post (x : Exchange) (path : String) (body : Bytes) : Fate → Option (Option Reply × Exchange)
  | .served v =>
    let (r, t) := serveTelemetry v path body x.table
    some (some r.reply, { x with table := t })
  | .failed r =>
    if r.status = 200 ∨ r.status = 404 ∨ r.status = 405 then none else some (some r, x)
  | .unanswered => some (none, { x with late := x.late ++ [(path, body)] })

/-- One atomic step of telemetry: its answer and what is then. A directory is listed in the
order of its names; a file operation may fail. -/
def perform (x : Exchange) : (o : SpoolOp) → SpoolChance → Option (SpoolAns o × Exchange)
  | .readDir, .flag ok => some (if ok then some ((sortKeys x.spool).map Prod.fst) else none, x)
  | .readFile path, .flag ok => some (if ok then x.spool.lookup path else none, x)
  | .atomicFile path b, .flag ok => some (ok, if ok then x.put path b else x)
  | .atomicFile path b, .renamed => some (false, x.put path b)
  | .remove path, .flag ok =>
    if ok && (x.spool.lookup path).isSome then some (true, { x with spool := removeFile path x.spool })
    else some (false, x)
  | .post path body, .fate f => x.post path body f
  | .load m, _ => some (x.metrics m, x)
  | .add m n, _ => some ((), { x with metrics := Function.update x.metrics m (x.metrics m + n) })
  | .drop id, _ => some ((), { x with dropped := x.dropped ++ [id] })
  | .perEvent, _ => some (x.perEvent, x)
  | .fallBack, _ => some ((), { x with perEvent := true })
  | .cancelled, .flag b => some (b, x)
  | _, _ => none

/-- What `NewTelemetry` counts. -/
def counted (files : List (String × Bytes)) : SpoolMetric → Int
  | .spoolUsed => ((files.filter (fun f => ".json".toList.isSuffixOf f.1.toList)).map
      (fun f => (f.2.length : Int))).sum
  | .spoolCount => (files.filter (fun f => ".json".toList.isSuffixOf f.1.toList)).length
  | _ => 0

end Exchange

/-- What happens beside the steps of the gateway: a request that was given up arrives after
all, or the gateway starts anew. A program that a crash interrupts makes no further step. -/
inductive ExchangeChange where
  | arrive (n : Nat) (v : Visit)
  | restart

def Exchange.change (x : Exchange) : ExchangeChange → Option Exchange
  | .arrive n v =>
    match x.late[n]? with
    | none => none
    | some (path, body) =>
      some { x with table := (serveTelemetry v path body x.table).2, late := x.late.eraseIdx n }
  | .restart => some { x with perEvent := false, metrics := Exchange.counted x.spool }

/-- The gateway's telemetry, run by choosing what is left to chance. -/
def exchange : Effect.Driver SpoolOp SpoolAns Exchange SpoolChance ExchangeChange where
  perform x := x.perform
  change x := x.change

/-- What telemetry does: it keeps an event in the spool, or delivers what is there. -/
inductive Errand where
  | persist (e : Gateway.Event)
  | deliver
deriving DecidableEq

def Errand.run (spoolBytes : Int) : Errand → Telemetry.S Unit
  | .persist e => Telemetry.persist spoolBytes e
  | .deliver => Telemetry.deliver

/-- What becomes of a file that `atomicFile` writes when these of its system calls fail. -/
def atomicChance (fails : Stage → Bool) : SpoolChance :=
  match runStages fails [] stages {} with
  | (true, _) => .flag true
  | (false, d) => if d.visible.isSome then .renamed else .flag false

/-- The goroutines that `Start` leaves running. -/
inductive Worker where
  | persister
  | deliverer
deriving DecidableEq

/-- File operations do not fail. -/
def SpoolChance.Works : SpoolOp → SpoolChance → Prop
  | .readDir, ch => ch = .flag true
  | .readFile _, ch => ch = .flag true
  | .atomicFile _ _, ch => ch = .flag true
  | .remove _, ch => ch = .flag true
  | _, _ => True

/-- One persister and one deliverer over one spool. An event that is kept is no longer than an
address space, and no file has had its name before. -/
def spooling (spoolBytes : Int) : Effect.Workers SpoolOp SpoolAns Exchange Worker where
  step x o a x' := ∃ ch, SpoolChance.Works o ch ∧ x.perform o ch = some (a, x')
  takes
    | .persister, x, p => ∃ e : Gateway.Event, p = Telemetry.persist spoolBytes e ∧ e.bytes.length < 2 ^ 48 ∧
        ∀ f ∈ x.written, f.1 ≠ e.id ++ ".json"
    | .deliverer, _, p => p = Telemetry.deliver
  env x x' := ∃ n v, x.change (.arrive n v) = some x'
  restart x x' := x.change .restart = some x'

end Switchboard.Controlplane
