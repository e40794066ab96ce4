import Pocs.Civic.Registry.Lifecycle
import Pocs.Civic.Registry.Resolution
import Pocs.Civic.Escrow
import Pocs.Civic.Registry.Relaying
import Pocs.Civic.PredicateCommitment
import Pocs.Compliance.VelocityChain
import Pocs.Compliance.Gating
import Pocs.Compliance.Solvency
import Pocs.Compliance.RevocationMirror
import Pocs.Compliance.Revocations
import Pocs.Compliance.Policy
import Pocs.Compliance.Guardian
import Pocs.Compliance.PayloadCodec
import Pocs.Mmf.Retirement
import Pocs.Swap.Windows
import Pocs.Swap.Claimable
import Pocs.Mmf.Seed
import Pocs.Rails.Recovery
import Pocs.Rails.Digest
import Pocs.Rails.Operator
import Pocs.Rails.Payouts
import Pocs.Validium.Forced
import Pocs.Validium.Escape
import Pocs.Identity.Statements
import Pocs.Identity.Rotation
import Pocs.Identity.Stakes
import Pocs.Bond.Maturity
import Pocs.Bond.Honest
import Pocs.Validium.HostTree
import Pocs.Rails.Card
import Pocs.Rails.Signatures
import Pocs.Swap.Failures
import Pocs.Swap.Roles
import Pocs.Epochs.ObliviousPaths
import Pocs.Civic.Registry.Failures
import Pocs.Civic.ImtCalls
import Pocs.Civic.PredicateCodec
import Pocs.Civic.Registry.Blobs
import Pocs.Compliance.Calendar
import Pocs.Compliance.RootWindows
import Pocs.Civic.FailedBatches
import Pocs.Civic.Signing
import Pocs.Civic.Frontier
import Pocs.Traces.Balances
import Pocs.Mmf.HandOut
import Pocs.Mmf.Reconciliation
import Pocs.Mmf.AttestationRounds
import Pocs.Identity.Dleq
import Pocs.Epochs.Replica
