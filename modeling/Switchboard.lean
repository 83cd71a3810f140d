import Switchboard.Proofs.Agreement
import Switchboard.Proofs.Batch
import Switchboard.Proofs.Budgets
import Switchboard.Proofs.Captures
import Switchboard.Proofs.Confinement
import Switchboard.Proofs.Content
import Switchboard.Proofs.Cooldown
import Switchboard.Proofs.Fleet
import Switchboard.Proofs.Folding
import Switchboard.Proofs.HalfOpen
import Switchboard.Proofs.Health
import Switchboard.Proofs.Histograms
import Switchboard.Proofs.Limiter
import Switchboard.Proofs.Logging
import Switchboard.Proofs.Marking
import Switchboard.Proofs.Naming
import Switchboard.Proofs.PerEvent
import Switchboard.Proofs.Persist
import Switchboard.Proofs.Reconstruct
import Switchboard.Proofs.Refusal
import Switchboard.Proofs.Replay
import Switchboard.Proofs.Reserve
import Switchboard.Proofs.Series
import Switchboard.Proofs.Skipping
import Switchboard.Proofs.Spool
import Switchboard.Proofs.Sticky
import Switchboard.Proofs.Surface
import Switchboard.Proofs.Torn
import Switchboard.Proofs.Translation
import Switchboard.Proofs.Trying
