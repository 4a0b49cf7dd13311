import SegmentLog.Json.Forms
import SegmentLog.Proofs.Client.Accepted
import SegmentLog.Proofs.Client.Durable
import SegmentLog.Proofs.Client.Reclaim
import SegmentLog.Proofs.Client.RoundTrip
import SegmentLog.Proofs.Client.Survive
import SegmentLog.Proofs.Counter.Blocks
import SegmentLog.Proofs.Counter.Events
import SegmentLog.Proofs.Counter.Holes
import SegmentLog.Proofs.Counter.Reload
import SegmentLog.Proofs.Counter.Lawful
import SegmentLog.Proofs.Directory.Listing
import SegmentLog.Proofs.Frame.Damage
import SegmentLog.Proofs.Frame.Exact
import SegmentLog.Proofs.Log.Seal
import SegmentLog.Proofs.Reader.Cells
import SegmentLog.Proofs.Rebalance.Fallback
import SegmentLog.Proofs.Recovery.Repeated
import SegmentLog.Proofs.Recovery.Resolved
import SegmentLog.Proofs.Recovery.Resume
import SegmentLog.Proofs.Recovery.Workload
import SegmentLog.Proofs.Session.Accounted
import SegmentLog.Proofs.Session.Isolated
import SegmentLog.Proofs.Session.Range
import SegmentLog.Proofs.Session.Replay
import SegmentLog.Proofs.Session.Restart
import SegmentLog.Proofs.Session.Torn
import SegmentLog.Proofs.Snapshot.Exact
import SegmentLog.Proofs.Store.Budget
