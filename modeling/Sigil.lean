import Sigil.Audit.Reconcile
import Sigil.Authority.AutoRevoke
import Sigil.Authority.ProtectedAccounts
import Sigil.Authority.StorageBounds
import Sigil.Authority.Succession
import Sigil.Client.CloseVault
import Sigil.Client.EngineRuns
import Sigil.Client.IntentDigest
import Sigil.Client.Mutations
import Sigil.Client.PostAssertionValidation
import Sigil.Client.ReplayRuns
import Sigil.Client.ShieldedPayments
import Sigil.Client.StateResolver
import Sigil.Cosign.ApprovalMessages
import Sigil.Cosign.Custody
import Sigil.Digest.DigestInvariant
import Sigil.Digest.QueuedDigest
import Sigil.Lifecycle.FreezeTransfer
import Sigil.Session.AssertionValues
import Sigil.Session.SlotErrors
import Sigil.Session.VerifiedBuild
import Sigil.Spending.GraylistCapacity
import Sigil.Spending.MintExtensions
import Sigil.Spending.OverlayRing
import Sigil.Spending.Refusals
import Sigil.Spending.StableFloor
import Sigil.Spending.WindowedRuns
