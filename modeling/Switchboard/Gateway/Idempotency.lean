import Switchboard.Gateway.Normalize

namespace Switchboard.Gateway
open Text

/-- The counters of the gateway that its request path moves. -/
inductive Metric where
  | requests
  | errors
  | retries
  | rejected
  | diskErrors
  | active
  | rateLimited
  | usageMismatch
  | emptyCompletion
  | emptyCompletionRecovered
  | emptyCompletionFailed
  | accountFailover
  | refusedFailover
  | rateLimitRetry
  | promptCacheMarked
  | providerProbeFailed
  | idempotentReplay
  | idempotentConflict
  | budgetSkip
  | idempotentUnknown
  | temperatureDropped
  | idemFull
deriving DecidableEq, Repr

inductive IdemState where
  | running
  | done
  | unknown
deriving DecidableEq, Repr

def IdemState.string : IdemState → String
  | .running => "running"
  | .done => "done"
  | .unknown => "unknown"

/-- A text that is none of the three is treated like `running` wherever it is read. -/
def IdemState.ofString (s : String) : IdemState :=
  if s = "done" then .done else if s = "unknown" then .unknown else .running

structure IdemEntry where
  state : IdemState := .running
  bodyHash : String := ""
  stored : Int := 0
  status : Int := 0
  stream : Bool := false
  response : Option Json := none
  text : String := ""
  finish : String := ""

def responseField : Option Json → List (String × Json)
  | none => []
  | some j => [("response", j)]

def idemEntryJson (e : IdemEntry) : Json :=
  .obj ([("state", .str e.state.string), ("body_hash", .str e.bodyHash),
    ("stored_unix", Json.int e.stored)] ++
    (if e.status = 0 then [] else [("status", Json.int e.status)]) ++
    (if e.stream then [("stream", .bool true)] else []) ++
    responseField e.response ++
    (if e.text = "" then [] else [("text", .str e.text)]) ++
    (if e.finish = "" then [] else [("finish", .str e.finish)]))

def idemState : GoJson.Decoder IdemState
  | old, .null => some old
  | _, .str s => some (IdemState.ofString s)
  | _, _ => none

open GoJson in
def idemEntryFields : List (GoJson.Field IdemEntry) :=
  [field "state" IdemEntry.state (fun e v => { e with state := v }) idemState,
   field "body_hash" IdemEntry.bodyHash (fun e v => { e with bodyHash := v }) string,
   field "stored_unix" IdemEntry.stored (fun e v => { e with stored := v }) int64,
   field "status" IdemEntry.status (fun e v => { e with status := v }) int64,
   field "stream" IdemEntry.stream (fun e v => { e with stream := v }) bool,
   field "response" IdemEntry.response (fun e v => { e with response := v }) raw,
   field "text" IdemEntry.text (fun e v => { e with text := v }) string,
   field "finish" IdemEntry.finish (fun e v => { e with finish := v }) string]

def encodeEntry (e : IdemEntry) : Bytes := GoJson.marshal (idemEntryJson e)

def decodeEntry (b : Bytes) : Option IdemEntry :=
  GoJson.unmarshal {} (GoJson.struct false idemEntryFields) b

structure IdemFile where
  content : Bytes
  modTime : Int
deriving DecidableEq

/-- The directory, by file names, and what is counted of it in memory. `ttl` is in
nanoseconds, as the clock is. -/
structure IdemStore where
  files : Map String IdemFile := ∅
  ttl : Int
  limit : Int
  used : Int := 0
  count : Int := 0

/-- How `os.WriteFile` may end: with the file written, without having touched it, or
with the first bytes of the new content only. -/
inductive DiskWrite where
  | complete
  | untouched
  | torn (n : Nat)
deriving DecidableEq, Repr

inductive StoreError where
  | conflict
  | mismatch
  | full
  | disk
deriving DecidableEq, Repr

def unix (now : Int) : Int := wrap64 (now / second)

namespace IdemStore
variable (sha256 : Bytes → Bytes)

def path (key : String) : String := Strings.hexEncode (sha256 (utf8 key.toList)) ++ ".json"

def hashBody (b : Bytes) : String := Strings.hexEncode (sha256 b)

def read (s : IdemStore) (now : Int) (key : String) : Option IdemEntry :=
  match s.files.lookup (path sha256 key) with
  | none => none
  | some f =>
    match decodeEntry f.content with
    | none => none
    | some e => if s.ttl < now - e.stored * second then none else some e

def write (s : IdemStore) (now : Int) (key : String) (e : IdemEntry) (disk : DiskWrite) :
    Option StoreError × IdemStore :=
  let b := encodeEntry e
  let existing : Int := match s.files.lookup (path sha256 key) with
    | some f => f.content.length
    | none => 0
  if (s.files.lookup (path sha256 key)).isNone ∧ s.limit < s.used + b.length then (some .full, s)
  else
    match disk with
    | .untouched => (some .disk, s)
    | .torn n => (some .disk, { s with files := s.files.insert (path sha256 key) ⟨b.take n, now⟩ })
    | .complete =>
      (none, { s with files := s.files.insert (path sha256 key) ⟨b, now⟩,
                      count := if existing = 0 then s.count + 1 else s.count,
                      used := s.used + (b.length - existing) })

/-- What `begin` returns, with the counter it moves. An entry to replay comes with
`ok`, as `none` does when the key was claimed. -/
def begin (s : IdemStore) (now : Int) (key : String) (body : Bytes) (disk : DiskWrite) :
    Except StoreError (Option IdemEntry) × List Metric × IdemStore :=
  match s.read sha256 now key with
  | some e =>
    if e.bodyHash ≠ hashBody sha256 body then (.error .mismatch, [.idempotentConflict], s)
    else
      match e.state with
      | .done => (.ok (some e), [.idempotentReplay], s)
      | .unknown => (.error .conflict, [.idempotentUnknown], s)
      | .running => (.error .conflict, [.idempotentConflict], s)
  | none =>
    match s.write sha256 now key
      { state := .running, bodyHash := hashBody sha256 body, stored := unix now } disk with
    | (none, s') => (.ok none, [], s')
    | (some .full, s') => (.error .full, [.idemFull], s')
    | (some e, s') => (.error e, [.diskErrors], s')

def finish (s : IdemStore) (now : Int) (key : String) (e : IdemEntry) (disk : DiskWrite) :
    List Metric × IdemStore :=
  match s.write sha256 now key e disk with
  | (none, s') => ([], s')
  | (some .full, s') => ([.idemFull], s')
  | (some _, s') => ([.diskErrors], s')

/-- `removed` is whether the file could be deleted. It is no longer counted either way. -/
def release (s : IdemStore) (key : String) (removed : Bool) : IdemStore :=
  match s.files.lookup (path sha256 key) with
  | none => s
  | some f =>
    { s with used := s.used - f.content.length, count := s.count - 1,
             files := if removed then s.files.erase (path sha256 key) else s.files }

end IdemStore

/-- A store over the directory it finds. What has expired is deleted first. -/
def newIdemStore (files : Map String IdemFile) (now ttl limit : Int) : IdemStore :=
  let kept := files.filter (fun _ f => decide (now - f.modTime ≤ ttl))
  { files := kept, ttl := ttl, limit := limit, count := kept.size,
    used := (kept.entries.map (fun f => (f.2.content.length : Int))).sum }

structure Victim where
  name : String
  size : Int
deriving DecidableEq, Repr

/-- A pass of the sweep: the files it has still to delete, and the one it has deleted
but not yet taken off the account. -/
structure Sweeper where
  victims : List Victim := []
  removed : Option Victim := none
deriving DecidableEq, Repr

inductive SweepStep where
  | scan
  | remove (deleted : Bool)
  | account
deriving DecidableEq, Repr

def idemSweepPerPass : Nat := 2000

namespace IdemStore

/-- What a pass of the sweep finds expired, in the order of the directory. -/
def expired (s : IdemStore) (now : Int) : List Victim :=
  ((sortKeys (s.files.entries.map (fun f => (f.1, f.2)))).filter
    (fun f => decide (s.ttl < now - f.2.modTime))).take idemSweepPerPass |>.map
      (fun f => ⟨f.1, f.2.content.length⟩)

/-- One step of the sweep. It holds the lock for the account only: a victim is deleted by
its name, whatever the file holds by then. -/
def sweep (s : IdemStore) (now : Int) (w : Sweeper) : SweepStep → Option (IdemStore × Sweeper)
  | .scan =>
    if w.victims = [] ∧ w.removed = none then some (s, { victims := s.expired now }) else none
  | .remove deleted =>
    match w.victims, w.removed with
    | v :: vs, none =>
      if deleted = true ∧ (s.files.lookup v.name).isSome then
        some ({ s with files := s.files.erase v.name }, { victims := vs, removed := some v })
      else some (s, { victims := vs })
    | _, _ => none
  | .account =>
    match w.removed with
    | some v => some ({ s with used := s.used - v.size, count := s.count - 1 },
                      { w with removed := none })
    | none => none

/-- The rest of a pass of the sweep beside which nothing else happens. -/
def sweepVictims (now : Int) : List Victim → IdemStore → IdemStore
  | [], s => s
  | v :: vs, s =>
    match s.sweep now { victims := v :: vs } (.remove true) with
    | none => s
    | some (s, w) =>
      match s.sweep now w .account with
      | none => sweepVictims now vs s
      | some (s, _) => sweepVictims now vs s

/-- `Sweep`, from its scan to its end. -/
def sweepAll (s : IdemStore) (now : Int) : IdemStore := sweepVictims now (s.expired now) s

end IdemStore

end Switchboard.Gateway
