import Stratum.Raft.SnapshotLabel
import Stratum.Version.Immutable
import Stratum.Service.Isolation
import Stratum.Coordinator.DeleteKB
import Stratum.Metadata.Root
import Stratum.Metadata.DeleteModes
import Stratum.Metadata.InFlight
import Stratum.Metadata.Ledger
import Stratum.Metadata.Verdicts
import Stratum.Metadata.Tables
import Stratum.Metadata.ApplyLoop
import Stratum.Wal.ReplayInput
import Stratum.Wal.Cursors
import Stratum.Wal.Durable
import Stratum.Plane.Takeover
import Stratum.Plane.BackfillGap
import Stratum.Splitter.SlidingWindow
import Stratum.Coordinator.GCSafety
import Stratum.Index.Append
import Stratum.Index.Rolling
import Stratum.Coordinator.Handoff
import Stratum.Plane.Leftovers
import Stratum.Plane.SafeDurable
import Stratum.Plane.Watermark
import Stratum.Raft.MatchIndex
import Stratum.Raft.ProposeOutcome
import Stratum.Router.Breaker
import Stratum.Index.Residency
import Stratum.Coordinator.WriteDocuments
import Stratum.Web.History
import Stratum.Owner
import Stratum.Plane.WriteGate
