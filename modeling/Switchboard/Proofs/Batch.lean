import Switchboard.Proofs.Deliver
import Switchboard.Proofs.Delivery
import Switchboard.Text.JsonPrefix

namespace Switchboard.Proofs.Batch
open Text Gateway Controlplane
open Deliver (Full Quiet Keeps Carries batchSize)
open Delivery (agentVisit withFate)
open Effect (Event Monitor Prog)
open Gateway.Telemetry (SpoolOp SpoolAns SpoolMetric Spooled S spooledFile batchBody)

/-- What is in a file that can be sent. -/
def Sendable (b : Bytes) : Prop := b.length ≤ 8192 ∧ (unmarshalEvent b).isSome = true

/-- The body of a batch, and what it was made of. -/
def Sized (body : Bytes) : Prop :=
  ∃ batch, body = batchBody batch ∧ Full batch ∧ ∀ sp ∈ batch, Sendable sp.event

/-- File operations work, and no request is answered. -/
def silent : SpoolOp → SpoolChance := withFate .unanswered

section
variable {x : Exchange} {f : String} {files : List String} {batch : List Spooled} {bytes sent : Nat} {sp : Spooled}

end

end Switchboard.Proofs.Batch
