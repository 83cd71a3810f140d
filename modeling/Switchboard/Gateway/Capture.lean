import Switchboard.Gateway.Idempotency

namespace Switchboard.Gateway
open Text

def captureRecordLimit : Nat := 8388608

def captureMaxRecords : Int := 50000

def sweepPerPass : Nat := 2000

/-- The directory of captures, whose files are like those of the idempotency store, and what
is counted of it in memory. -/
structure CaptureStore where
  files : Map String IdemFile := ∅
  ttl : Int
  limit : Int
  maxBytes : Nat := captureRecordLimit
  used : Int := 0
  count : Int := 0

inductive CaptureError where
  | requestID
  | marshal
  | tooLarge
  | full
deriving DecidableEq, Repr

/-- `^[0-9a-f]{32}$`. -/
def requestIDMatches (id : String) : Bool :=
  id.toList.length == 32 && id.toList.all (fun c => "0123456789abcdef".toList.contains c)

def newCaptureStore (files : Map String IdemFile) (now ttl limit : Int) : CaptureStore :=
  let kept := files.filter (fun _ f => decide (now - f.modTime ≤ ttl))
  { files := kept, ttl := ttl, limit := limit, count := kept.size,
    used := (kept.entries.map (fun f => (f.2.content.length : Int))).sum }

namespace CaptureStore

def path (id : String) : String := id ++ ".json"

/-- What a pass of the sweep finds, in the order of the directory. -/
def expired (s : CaptureStore) (now : Int) : List Victim :=
  ((sortKeys (s.files.entries.map (fun f => (f.1, f.2)))).filter
    (fun f => decide (s.ttl < now - f.2.modTime))).take sweepPerPass |>.map
      (fun f => ⟨f.1, f.2.content.length⟩)

/-- The length of the file that a request has. -/
def existing (s : CaptureStore) (id : String) : Int :=
  ((s.files.lookup (path id)).map (fun f => (f.content.length : Int))).getD 0

/-- `Write` of a record that marshals to `b`, if it does. -/
def write (s : CaptureStore) (now : Int) (id : String) (b : Option Bytes) :
    Option CaptureError × CaptureStore :=
  if !requestIDMatches id then (some .requestID, s)
  else
    match b with
    | none => (some .marshal, s)
    | some b =>
      if s.maxBytes < b.length then (some .tooLarge, s)
      else if s.limit < s.used + b.length ∨ captureMaxRecords ≤ s.count then (some .full, s)
      else
        (none, { s with
          files := s.files.insert (path id) ⟨b, now⟩
          count := if s.existing id = 0 then s.count + 1 else s.count
          used := s.used + (b.length - s.existing id) })

end CaptureStore

/-- The store with the clock and the passes of `Sweep` that go on beside it. -/
structure Captures where
  now : Int
  store : CaptureStore
  sweepers : List Sweeper := []

/-- A call of `Write`, a step of a pass, a restart, or time. -/
inductive CaptureAct where
  | tick (d : Nat)
  | write (id : String) (b : Option Bytes)
  | scan
  | remove (i : Nat)
  | account (i : Nat)
  | restart
deriving DecidableEq, Repr

/-- Only `write` and `account` hold the lock. -/
def Captures.step (s : Captures) : CaptureAct → Option Captures
  | .tick d => some { s with now := s.now + d }
  | .write id b => some { s with store := (s.store.write s.now id b).2 }
  | .scan => some { s with sweepers := s.sweepers ++ [{ victims := s.store.expired s.now }] }
  | .remove i =>
    match s.sweepers[i]? with
    | some ⟨v :: vs, none⟩ =>
      if (s.store.files.lookup v.name).isSome then
        some { s with
          store := { s.store with files := s.store.files.erase v.name }
          sweepers := s.sweepers.set i ⟨vs, some v⟩ }
      else some { s with sweepers := s.sweepers.set i ⟨vs, none⟩ }
    | _ => none
  | .account i =>
    match s.sweepers[i]? with
    | some ⟨vs, some v⟩ =>
      some { s with
        store := { s.store with used := s.store.used - v.size, count := s.store.count - 1 }
        sweepers := s.sweepers.set i ⟨vs, none⟩ }
    | _ => none
  | .restart =>
    some { s with
      store := newCaptureStore s.store.files s.now s.store.ttl s.store.limit
      sweepers := [] }

end Switchboard.Gateway
