import Upkeep.Admin.Router
import Upkeep.Main
import Upkeep.Proofs.Admin.Barred
import Upkeep.Proofs.Admin.Route
import Upkeep.Proofs.Did.Text
import Upkeep.Proofs.Foreign
import Upkeep.Proofs.Keepable
import Upkeep.Proofs.Limits
import Upkeep.Proofs.MarkerRace
import Upkeep.Proofs.MarkerSet
import Upkeep.Proofs.Markers
import Upkeep.Proofs.Registration
import Upkeep.Proofs.Session.Attempts
import Upkeep.Proofs.Session.Bound
import Upkeep.Proofs.Session.Decision
import Upkeep.Proofs.Session.Expiring
import Upkeep.Proofs.Session.ExpiryOwner
import Upkeep.Proofs.Session.Findings
import Upkeep.Proofs.Session.Granted
import Upkeep.Proofs.Session.ReadBack
import Upkeep.Proofs.Session.Rotation
import Upkeep.Proofs.Session.WriteBack
import Upkeep.Proofs.StartSequence
import Upkeep.Proofs.Store.Backends
import Upkeep.Proofs.Store.Crash
import Upkeep.Proofs.Store.Linear
import Upkeep.Proofs.Store.Pager
import Upkeep.Proofs.Store.Sorted
import Upkeep.Proofs.Timer.Alive
import Upkeep.Proofs.Timer.Cadence
import Upkeep.Proofs.Timer.Chains
import Upkeep.Proofs.Timer.OnTime
import Upkeep.Proofs.Timer.Withdrawn
import Upkeep.Proofs.Token.Claim
import Upkeep.Store.Interference
import Upkeep.Store.Memory
