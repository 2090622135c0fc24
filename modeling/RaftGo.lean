import RaftGo.Chaos.Cleanup
import RaftGo.Cluster.Backing
import RaftGo.Cluster.Convergence
import RaftGo.Cluster.Leadership
import RaftGo.Cluster.Machine
import RaftGo.Cluster.Matching
import RaftGo.Cluster.Overlap
import RaftGo.Cluster.Phantom
import RaftGo.Cluster.PreVote
import RaftGo.Cluster.Redirect
import RaftGo.Cluster.Representation
import RaftGo.Cluster.Safety
import RaftGo.Cluster.Standstill
import RaftGo.Cluster.Tracking
import RaftGo.KvStore.Coherence
import RaftGo.KvStore.DataDir
import RaftGo.KvStore.Quorum
import RaftGo.KvStore.Reads
import RaftGo.KvStore.Requests
import RaftGo.KvStore.Reuse
import RaftGo.KvStore.Rollback
import RaftGo.KvStore.Wakeup
import RaftGo.KvStore.Wraparound
import RaftGo.Raft.Agreement
import RaftGo.Raft.Backoff
import RaftGo.Raft.CommitRule
import RaftGo.Raft.Contact
import RaftGo.Raft.LogMap
import RaftGo.Raft.Startup
import RaftGo.Sidecar.PeerAddrs
