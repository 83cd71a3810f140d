import Switchboard.Gateway.World

namespace Switchboard.Gateway
open Text

def FleetHealth.report (e : Sigma fun _ : String => Fault) : Json :=
  .obj [("fault", .str e.2.string), ("provider", .str e.1),
    ("ttl_seconds", Json.int (fleetHintMax / second))]

structure FleetRequest where
  url : String
  body : Bytes

/-- The first half of `fleetSyncOnce`: the faults of the last interval are taken, and told
to the control plane. -/
def fleetRequest (srv : Server) (instanceID : String) (w : World) : Option (FleetRequest × World) :=
  if w.fleet.isNone ∨ srv.c.controlURL = "" then none
  else
    let body := Json.obj [("instance_id", .str instanceID),
      ("reports", .arr (w.reported.entries.map FleetHealth.report))]
    some (⟨trimURL srv.c.controlURL ++ "/v1/health", GoJson.marshal body⟩, { w with reported := ∅ })

/-- An entry of the answer's `unhealthy`. -/
structure UnhealthyEntry where
  provider : String := ""
  fault : String := ""
  seconds : Int := 0
deriving DecidableEq, Repr

/-- The durations the answer asks for, in nanoseconds of 64 bits. -/
def fleetHints (unhealthy : List UnhealthyEntry) : Map String Int :=
  unhealthy.foldl (fun next u =>
    if u.seconds ≤ 0 then next else next.insert u.provider (wrap64 (u.seconds * second))) ∅

/-- What comes back: the status, and the entries of a body that can be decoded. -/
structure FleetAnswer where
  statusCode : Int
  unhealthy : Option (List UnhealthyEntry)

/-- The second half of `fleetSyncOnce`, with the number of hints it counts. -/
def fleetAnswer (w : World) (a : FleetAnswer) : World × Option Nat :=
  match a.unhealthy with
  | none => (w, none)
  | some unhealthy =>
    if a.statusCode ≠ 200 then (w, none)
    else
      let next := fleetHints unhealthy
      ({ w with fleet := w.fleet.map (fun _ => FleetHealth.apply w.now next fleetHintMax) },
        some next.size)

end Switchboard.Gateway
