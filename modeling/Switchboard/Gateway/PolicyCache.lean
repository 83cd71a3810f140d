import Switchboard.Gateway.Policy

namespace Switchboard.Gateway
open Text

/-- The system calls of `atomicFile`, in order. -/
inductive Stage where
  | createTemp
  | chmod
  | write
  | sync
  | close
  | rename
  | openDir
  | syncDir
deriving DecidableEq, Repr

def Stage.next : Stage → Option Stage
  | .createTemp => some .chmod
  | .chmod => some .write
  | .write => some .sync
  | .sync => some .close
  | .close => some .rename
  | .rename => some .openDir
  | .openDir => some .syncDir
  | .syncDir => none

/-- What is found at the cache's path now, and what would be found there after a
loss of power. The file itself is synced before it is renamed into place. -/
structure Disk where
  visible : Option Bytes := none
  durable : Option Bytes := none

/-- What a system call that succeeds does to the path of the cache. -/
def Stage.apply (s : Stage) (raw : Bytes) (d : Disk) : Disk :=
  match s with
  | .rename => { d with visible := some raw }
  | .syncDir => { d with durable := d.visible }
  | _ => d

def stages : List Stage :=
  [.createTemp, .chmod, .write, .sync, .close, .rename, .openDir, .syncDir]

/-- `atomicFile` on a path that nobody else touches: the system calls up to the first that
fails, and whether none did. -/
def runStages (fails : Stage → Bool) (raw : Bytes) : List Stage → Disk → Bool × Disk
  | [], d => (true, d)
  | s :: ss, d => if fails s then (false, d) else runStages fails raw ss (s.apply raw d)

/-- A call of `Apply` whose document has been verified. -/
structure Call where
  raw : Bytes
  policy : Policy

/-- A gateway: its store, the calls that wait for the store's lock, and the one
that holds it with the system call it is about to make. -/
structure Process where
  store : PolicyStore
  waiting : List Call := []
  holder : Option (Call × Stage) := none

/-- A machine, and the policies that have been in force on it, the last one first. -/
structure Host where
  disk : Disk := {}
  process : Option Process := none
  activated : List Policy := []

inductive HostLabel where
  | verify (raw : Bytes) (now : Int)
  | lock (i : Nat)
  | call (ok : Bool)
  | writeback
  | kill
  | powerLoss
  | start (now : Int)

namespace Host

def withProcess (h : Host) (p : Process) : Host := { h with process := some p }

def activate (h : Host) (p : Process) (c : Call) : Host :=
  { h with
    process := some { p with store := p.store.install c.policy c.raw, holder := none }
    activated := c.policy :: h.activated }

section
variable (ed25519Verify : Bytes → Bytes → Bytes → Bool) (tenant : String)
  (keys : String → Option Bytes)

/-- `Config.Store`. -/
def newStore : PolicyStore := { tenant := tenant, keys := keys }

/-- `main` restores what it finds and does not serve if that fails. -/
def boot (h : Host) (now : Int) : Host :=
  match h.disk.visible with
  | none => h.withProcess { store := newStore tenant keys }
  | some raw =>
    match (newStore tenant keys).verify ed25519Verify raw now true with
    | .error _ => h
    | .ok p =>
      { h with
        process := some { store := (newStore tenant keys).install p raw }
        activated := p :: h.activated }

/-- One step. Verifying happens before the lock is taken, and a system call that
fails ends the call of `Apply` that made it; a kill leaves the disk as the kernel
has it, a loss of power as it was last written back. -/
def step (h : Host) : HostLabel → Option Host
  | .verify raw now =>
    match h.process with
    | none => none
    | some p =>
      match p.store.verify ed25519Verify raw now false with
      | .error _ => some h
      | .ok q => some (h.withProcess { p with waiting := p.waiting ++ [⟨raw, q⟩] })
  | .lock i =>
    match h.process with
    | none => none
    | some p =>
      match p.holder, p.waiting[i]? with
      | none, some c =>
        let p := { p with waiting := p.waiting.eraseIdx i }
        match p.store.supersedes c.policy with
        | .ok true => some (h.withProcess { p with holder := some (c, .createTemp) })
        | _ => some (h.withProcess p)
      | _, _ => none
  | .call ok =>
    match h.process with
    | none => none
    | some p =>
      match p.holder with
      | none => none
      | some (c, s) =>
        if ok then
          let h := { h with disk := s.apply c.raw h.disk }
          match s.next with
          | some s' => some (h.withProcess { p with holder := some (c, s') })
          | none => some (h.activate p c)
        else some (h.withProcess { p with holder := none })
  | .writeback => some { h with disk := { h.disk with durable := h.disk.visible } }
  | .kill => some { h with process := none }
  | .powerLoss =>
    some { h with process := none, disk := { h.disk with visible := h.disk.durable } }
  | .start now =>
    match h.process with
    | none => some (h.boot ed25519Verify tenant keys now)
    | some _ => none

end

end Host

end Switchboard.Gateway
