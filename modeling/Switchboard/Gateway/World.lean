import Switchboard.Effect.Pool
import Switchboard.Gateway.Probe

namespace Switchboard.Gateway
open Text

/-- The state that the requests of one process share, with its clock. -/
structure World where
  now : Int
  draining : Bool := false
  policies : PolicyStore
  syncState : String := ""
  rate : Bucket
  retry : Bucket
  slots : Int := 0
  circuits : Map String Circuit
  budgets : BudgetTable := newBudgetTable
  temps : TemperatureTable := newTemperatureTable
  prefixes : Option PrefixCache := none
  fleet : Option FleetHealth := none
  reported : Map String Fault := ∅
  unhealthy : List String := []
  idem : IdemStore
  sweeper : Sweeper := {}
  metrics : Metric → Int := fun _ => 0

/-- The breakers a server starts with. -/
def newCircuits : Map String Circuit :=
  AList.insert "openai" {} (AList.insert "anthropic" {} (AList.insert "gemini" {}
    (AList.insert "bedrock" {} ∅)))

/-- A server as it starts, with the policies it was given and the directory of its
idempotency store. -/
def World.new (c : Config) (now : Int) (policies : PolicyStore)
    (files : Map String IdemFile) : World where
  now := now
  policies := policies
  rate := newBucket now c.rate c.burst
  retry := newBucket now c.retryRate c.retryRate
  circuits := newCircuits
  prefixes := if c.promptCaching then some newPrefixCache else none
  fleet := if c.fleetHealth then some newFleetHealth else none
  idem := newIdemStore files now (c.idempotencyTTLSeconds * second) c.idempotencyBytes

/-- What is not determined by the state: randomness, the network, the disk and the
client. -/
inductive Chance where
  | quiet
  | random (b : Bytes)
  | flag (b : Bool)
  | disk (d : DiskWrite)
  | body (b : Option Bytes)
  | headers (hs : Option (List (String × String)))
  | outcome (o : Outcome)

namespace World

def add (w : World) (m : Metric) (n : Int) : World :=
  { w with metrics := Function.update w.metrics m (w.metrics m + n) }

def addAll (w : World) (ms : List Metric) : World := ms.foldl (fun w m => w.add m 1) w

def expired (w : World) : Bool :=
  match w.policies.current with
  | some p => decide (p.expiresAt ≤ w.now / second)
  | none => false

def current (w : World) : Option Policy := w.policies.Current (w.now / second)

/-- One provider's breaker after a call. A provider that has none is a nil pointer, and
the request panics. -/
def onCircuit (w : World) (provider : String) (f : Circuit → α × Circuit) : Option (α × World) :=
  (w.circuits.lookup provider).map (fun c =>
    ((f c).1, { w with circuits := w.circuits.insert provider (f c).2 }))

def answer (w : World) (srv : Server) : Ask → Chance → Option (Bool × World)
  | .draining, _ => some (w.draining, w)
  | .policyExpired, _ => some (w.expired, w)
  | .rateAllow, _ => some ((w.rate.allow w.now).1, { w with rate := (w.rate.allow w.now).2 })
  | .retryAllow, _ => some ((w.retry.allow w.now).1, { w with retry := (w.retry.allow w.now).2 })
  | .acquireSlot, _ =>
    if w.slots < srv.c.concurrency then some (true, { w with slots := w.slots + 1 })
    else some (false, w)
  | .budgetSkip k b, _ => some (w.budgets.skip w.now k b, w)
  | .fleetUnhealthy p, _ => some (w.fleet.any (fun f => f.unhealthy w.now p), w)
  | .temperatureOmitted k, _ =>
    some ((w.temps.omitted w.now k).1, { w with temps := (w.temps.omitted w.now k).2 })
  | .worthCaching s, _ =>
    match w.prefixes with
    | none => some (false, w)
    | some p =>
      let (worth, p) := p.worthCaching srv.lib.sha256 w.now s
      some (worth, { w with prefixes := some p })
  | .wait _, .flag b => some (b, w)
  | .clientGone, .flag b => some (b, w)
  | _, _ => none

def note (w : World) : Tell → World
  | .releaseSlot => { w with slots := w.slots - 1 }
  | .count m n => w.add m n
  | .budgetObserve k b produced => { w with budgets := w.budgets.observe w.now k b produced }
  | .share p f =>
    if w.fleet.isSome && shareable f then { w with reported := w.reported.insert p f } else w
  | .temperatureObserve k => { w with temps := w.temps.observe w.now k }
  | .markHealthy p => { w with unhealthy := w.unhealthy.filter (· != p) }
  | .markUnhealthy p => { w with unhealthy := p :: w.unhealthy.filter (· != p) }
  | .observeRoute _ _ _ _ _ => w
  | .emit _ => w
  | .capture _ => w

/-- One atomic step of some request: its answer and the state after it. A wait may be
over at any time; the clock is moved by the environment. -/
def perform (srv : Server) (w : World) : (o : Op) → Chance → Option (Ans o × World)
  | .now, _ => some (w.now, w)
  | .randomID n, .random b => if b.length = n then some (Strings.hexEncode b, w) else none
  | .syncState, _ => some (w.syncState, w)
  | .currentPolicy, _ => some (w.current, w)
  | .awaitPolicy, .flag false => some (none, w)
  | .awaitPolicy, .quiet => w.current.map (fun p => (some p, w))
  | .ask o, ch => w.answer srv o ch
  | .tell o, _ => some ((), w.note o)
  | .wouldAllow p, _ => w.onCircuit p (fun c => (c.wouldAllow w.now, c))
  | .allow p, _ => w.onCircuit p (fun c => c.allow w.now)
  | .settle p s, _ => w.onCircuit p (fun c => ((), s.apply c w.now))
  | .beginKey k body, .disk d =>
    let (r, ms, idem) := w.idem.begin srv.lib.sha256 w.now k body d
    some (r, { w with idem := idem }.addAll ms)
  | .finishKey k e, .disk d =>
    let (ms, idem) := w.idem.finish srv.lib.sha256 w.now k e d
    some ((), { w with idem := idem }.addAll ms)
  | .releaseKey k, .flag removed =>
    some ((), { w with idem := w.idem.release srv.lib.sha256 k removed })
  | .setHeader _ _, _ => some ((), w)
  | .delHeader _, _ => some ((), w)
  | .writeHeader _, _ => some ((), w)
  | .write _, .flag b => some (b, w)
  | .readBody, .body b => some (b, w)
  | .sign _, .headers hs => some (hs, w)
  | .send _, .outcome o => some (o, w)
  | _, _ => none

end World

/-- What runs side by side in one process: the handling of requests, and the check of the
providers at its start. -/
inductive Task where
  | chat (r : Request)
  | probeProviders

def Task.run (srv : Server) : Task → M (Option Event)
  | .chat r => some <$> Gateway.chat srv r
  | .probeProviders => (fun _ => none) <$> Gateway.probeProviders srv

/-- What happens to the shared state between the steps of requests: time passes, a
policy arrives or is restored, the fleet is heard from, the idempotency store is swept, the
process is told to stop. -/
inductive Change where
  | tick (d : Nat)
  | apply (raw : Bytes) (persist written : Bool)
  | restore (raw : Bytes)
  | synced (reason : String)
  | fleet (reports : Map String Int)
  | sweep (step : SweepStep)
  | drain

section
variable (ed25519Verify : Bytes → Bytes → Bytes → Bool)

def World.change (w : World) : Change → Option World
  | .tick d => some { w with now := w.now + d }
  | .apply raw persist written =>
    match w.policies.apply ed25519Verify raw (w.now / second) persist written with
    | .ok s => some { w with policies := s }
    | .error _ => none
  | .restore raw =>
    match w.policies.restore ed25519Verify raw (w.now / second) with
    | .ok s => some { w with policies := s }
    | .error _ => none
  | .synced reason => some { w with syncState := reason }
  | .fleet reports =>
    some { w with fleet := w.fleet.map (fun _ => FleetHealth.apply w.now reports fleetHintMax),
                  reported := ∅ }
  | .sweep step =>
    (w.idem.sweep w.now w.sweeper step).map (fun (idem, sweeper) =>
      { w with idem := idem, sweeper := sweeper })
  | .drain => some { w with draining := true }

/-- The requests of one process, run by choosing what is left to chance. -/
def driver (srv : Server) : Effect.Driver Op Ans World Chance Change where
  perform w := w.perform srv
  change w := w.change ed25519Verify

/-- The machine the requests of one process run on. -/
def machine (srv : Server) : Effect.Machine Op Ans World := (driver ed25519Verify srv).machine

end

end Switchboard.Gateway
