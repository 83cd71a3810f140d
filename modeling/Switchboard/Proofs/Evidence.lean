import Switchboard.Proofs.Events

namespace Switchboard.Proofs.Evidence
open Text Gateway Tally Ledger Steps NoReplay Events
open Effect (Monitor Prog Machine Conf)

section
variable {srv : Server} {A : Assume} {g : Sheet}

end

/-- The request is about to record an outcome. -/
def recording : Op → Bool
  | .settle _ (.result _) => true
  | _ => false

/-- One request up to the point where it records an outcome. -/
def judged (choose : Op → Chance) : Conf Op Ans World Unit (Option Event) :=
  (driver (fun _ _ _ => true) plainServer).play (fun _ _ _ _ => true) (fun _ _ => true) 200
    [.go () recording choose]
    (.start (plainWorld plainConfig) (fun _ => (Task.chat (plainRequest "")).run plainServer))

end Switchboard.Proofs.Evidence
