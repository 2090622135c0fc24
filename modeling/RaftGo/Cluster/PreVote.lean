import RaftGo.Cluster.ElectionSafety
import RaftGo.Raft.PreVote

/-! Pre-vote. A node that has heard from a leader refuses the probes of others. The
leader does not hear from itself, though: with its consent a node that is cut off from
it can find a majority in a cluster of odd size. -/

namespace RaftGo

open Raft KvStore Library

variable {ι : Type} {deployment : Deployment ι} {cluster : Cluster ι}

/-- The transport brings every probe to its target and the reply back before anything
else happens. -/
def Deployment.Answers (deployment : Deployment ι) (cluster : Cluster ι) (args : RequestVoteArgs)
    (transport : String → Option RequestVoteReply) : Prop :=
  ∀ j, transport (deployment.addr j) =
    some ((cluster.process j).node.handleRequestVote cluster.clock args).2

variable [Fintype ι] [DecidableEq ι]

/-- Node 1, elected by node 3, sends heartbeats, and node 2 receives one. -/
def heartbeatHeard : List (Event (Fin 3)) := [
  .run (.tick (50 * millisecond)),
  .run (.internal node1 .heartbeat),
  .run (.serveAppend 0 node2)]

end RaftGo
