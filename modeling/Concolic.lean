import Concolic.Config.SessionBound
import Concolic.Main
import Concolic.Session.Script
import Concolic.Text.Quoted
import Concolic.Proofs.Buffers
import Concolic.Proofs.Names
import Concolic.Proofs.Marking
import Concolic.Proofs.Agreement
import Concolic.Proofs.Atomicity
import Concolic.Proofs.Replay
import Concolic.Proofs.Soundness
import Concolic.Proofs.Steps
import Concolic.Proofs.Regions
import Concolic.Proofs.Attribution
import Concolic.Proofs.Sizes
import Concolic.Proofs.Transparency
import Concolic.Proofs.Reports
import Concolic.Proofs.Feeds
import Concolic.Proofs.Lines
import Concolic.Proofs.Strictness
import Concolic.Proofs.Independence
import Concolic.Proofs.Idempotence
import Concolic.Proofs.Precedence
import Concolic.Proofs.SessionBounds
import Concolic.Proofs.Records
import Concolic.Proofs.Tables
import Concolic.Proofs.Mutations
import Concolic.Proofs.Readings
import Concolic.Proofs.NameBytes
import Concolic.Proofs.Policies
import Concolic.Proofs.Printing
import Concolic.Proofs.StrictErrors
import Concolic.Proofs.Searches
import Concolic.Proofs.Deliveries
import Concolic.Proofs.Layering
