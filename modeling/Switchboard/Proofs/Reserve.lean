import Switchboard.Proofs.NoReplay
import Switchboard.Proofs.Valid

namespace Switchboard.Proofs
open Text Gateway

end Switchboard.Proofs
