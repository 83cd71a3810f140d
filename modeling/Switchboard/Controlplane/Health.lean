import Switchboard.Controlplane.Telemetry

namespace Switchboard.Controlplane
open Text Gateway

inductive HealthFault where
  | account
  | degraded
deriving DecidableEq, Repr

def HealthFault.text : HealthFault → String
  | .account => "account"
  | .degraded => "degraded"

structure HealthReport where
  provider : String
  fault : HealthFault
  ttlSeconds : Int
deriving DecidableEq, Repr

structure HealthSync where
  instanceID : String
  reports : List HealthReport := []
deriving DecidableEq, Repr

def faultOf : Py → Option HealthFault
  | .str "account" => some .account
  | .str "degraded" => some .degraded
  | _ => none

/-- `HealthReport`, strict and with no field beyond those it names. -/
def healthReport : Py → Option HealthReport
  | .dict d =>
    if !(d.all (fun f => ["provider", "fault", "ttl_seconds"].contains f.1)) then none
    else do
      return {
        provider := ← required (literal providers) d "provider"
        fault := ← required faultOf d "fault"
        ttlSeconds := ← required (between 1 300) d "ttl_seconds" }
  | _ => none

def healthReports : Py → Option (List HealthReport)
  | .list vs => if vs.length ≤ 8 then vs.mapM healthReport else none
  | _ => none

/-- `HealthSync`. -/
def healthSyncOf : Py → Option HealthSync
  | .dict d =>
    if !(d.all (fun f => ["instance_id", "reports"].contains f.1)) then none
    else do
      return {
        instanceID := ← required (pattern 16) d "instance_id"
        reports := ← defaulted healthReports [] d "reports" }
  | _ => none

/-- A row of `provider_health` of one tenant. Times are in microseconds. -/
structure HealthRow where
  instanceID : String
  provider : String
  fault : HealthFault
  reportedAt : Int
  expiresAt : Int
deriving DecidableEq, Repr

abbrev HealthTable := List HealthRow

def HealthReport.row (instanceID : String) (now : Int) (r : HealthReport) : HealthRow :=
  ⟨instanceID, r.provider, r.fault, now, now + r.ttlSeconds * 1000000⟩

def HealthRow.about (instanceID provider : String) (r : HealthRow) : Bool :=
  r.instanceID == instanceID && r.provider == provider

/-- `INSERT ... ON CONFLICT (...) DO UPDATE`, which sets all of a row but its key. -/
def HealthTable.upsert (t : HealthTable) (r : HealthRow) : HealthTable :=
  if t.any (HealthRow.about r.instanceID r.provider) then
    t.map (fun old => if old.about r.instanceID r.provider then r else old)
  else t ++ [r]

/-- `DELETE ... WHERE expires_at <= now()`. -/
def HealthTable.sweep (t : HealthTable) (now : Int) : HealthTable :=
  t.filter (fun r => !decide (r.expiresAt ≤ now))

/-- A row of the query, one for each provider and fault. -/
structure HealthGroup where
  provider : String
  fault : HealthFault
  instances : Nat
  untilTime : Int
deriving DecidableEq, Repr

/-- The query. It asks for no order, so that of the rows is taken. -/
def HealthTable.select (t : HealthTable) (now : Int) : List HealthGroup :=
  let live := t.filter (fun r => decide (now < r.expiresAt))
  (live.map (fun r => (r.provider, r.fault))).dedup.map (fun k =>
    let group := live.filter (fun r => decide ((r.provider, r.fault) = k))
    { provider := k.1, fault := k.2,
      instances := (group.map HealthRow.instanceID).dedup.length,
      untilTime := (group.map HealthRow.expiresAt).foldl max now })

structure Unhealthy where
  provider : String
  fault : HealthFault
  instances : Nat
  seconds : Int
deriving DecidableEq, Repr

/-- The groups that are told, by the clock of the application. -/
def unhealthyOf (wall : Int) (groups : List HealthGroup) : List Unhealthy :=
  (groups.filter (fun g => !(g.fault == .degraded && decide (g.instances < 2)))).map (fun g =>
    { provider := g.provider, fault := g.fault, instances := g.instances,
      seconds := max 1 (Int.tdiv (g.untilTime - wall) 1000000) })

def unhealthyJson (us : List Unhealthy) : Json :=
  .obj [("unhealthy", .arr (us.map (fun u => .obj [("provider", .str u.provider),
    ("fault", .str u.fault.text), ("instances", Json.int u.instances),
    ("seconds", Json.int u.seconds)])))]

/-- The database driver. Its `Connection.execute` returns a new cursor; `fetchall` says whether
a connection has the method of that name too, for the rows of its last statement. -/
structure Driver where
  fetchall : Bool

/-- Psycopg 3.3, where only a cursor has it. -/
def psycopg : Driver := ⟨false⟩

def healthSync (driver : Driver) (now wall : Int) (role : Role) (body : HealthSync)
    (t : HealthTable) : Response × HealthTable :=
  if role ≠ .agent then (detail 403 "forbidden", t)
  else
    let rows := ((body.reports.map (HealthReport.row body.instanceID now)).foldl
      HealthTable.upsert t).sweep now
    if driver.fetchall then
      (jsonResponse 200 (unhealthyJson (unhealthyOf wall (rows.select now))), rows)
    else
      -- The `AttributeError` rolls the transaction back, and `guard` answers for it.
      (detail 500 "internal error", t)

/-- A request to `POST /v1/health`: the time of its transaction, the clock of the application
when it answers, and the bytes it brings. -/
structure HealthCall where
  slow : Bool := false
  principal : Option Role
  now : Int
  wall : Int
  body : Bytes
deriving DecidableEq, Repr

def serveHealth (driver : Driver) (c : HealthCall) (t : HealthTable) : Response × HealthTable :=
  guarded ⟨c.slow, c.principal, c.now⟩ c.body healthSyncOf (healthSync driver c.now c.wall) t

/-- The table after these calls. -/
def healthTable (driver : Driver) (calls : List HealthCall) : HealthTable :=
  calls.foldl (fun t c => (serveHealth driver c t).2) []

end Switchboard.Controlplane
