import Aero.Main
import Aero.Proofs.Connection
import Aero.Proofs.Discipline
import Aero.Proofs.Ledger
import Aero.Proofs.Preservation
import Aero.Proofs.Identity
import Aero.Proofs.RoundTrip
import Aero.Proofs.Scoping
import Aero.Proofs.Termination
import Aero.Proofs.Integer
import Aero.Proofs.Bounds
import Aero.Proofs.Reachability
import Aero.Proofs.TypeName
import Aero.Proofs.Operations
import Aero.Proofs.Escape
