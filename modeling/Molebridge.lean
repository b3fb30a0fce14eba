import Molebridge.Proofs.WalkSound
import Molebridge.Proofs.Deletion
import Molebridge.Proofs.Judged
import Molebridge.Proofs.LeaseRuns
import Molebridge.Proofs.OneFault
import Molebridge.Proofs.FailClosed
import Molebridge.Proofs.CurrentModel
import Molebridge.Proofs.Repairs
import Molebridge.Proofs.Status
import Molebridge.Proofs.ReaderAgrees
import Molebridge.Proofs.Pacing
import Molebridge.Proofs.NextActions
import Molebridge.Proofs.LastWord
import Molebridge.Proofs.Served
import Molebridge.Proofs.Answered
import Molebridge.Proofs.Outlives
import Molebridge.Proofs.BehindLease
import Molebridge.Proofs.Skipped
import Molebridge.Proofs.RoundTrip
import Molebridge.Proofs.GateAgrees
import Molebridge.Proofs.HostTable
import Molebridge.Proofs.Rebuild
import Molebridge.Proofs.LocalDelivery
import Molebridge.Proofs.Retired
import Molebridge.Proofs.Moved
import Molebridge.Proofs.OpenedOnce
import Molebridge.Proofs.Prepared
import Molebridge.Proofs.Refreshed
import Molebridge.Proofs.ItemTexts
import Molebridge.Proofs.SnapshotSize
import Molebridge.Proofs.LogScans
import Molebridge.Proofs.Sampled
