import RaftGo.Raft.Replication

/-! Single-server membership changes (`AddPeer`, `RemovePeer`,
`submitConfigLocked` and `applyConfigEntry` of `raft/node.go`). -/

namespace RaftGo.Raft.RaftNode

variable (node : RaftNode)

/-- A leader starts to track a peer it has just taken into its list. -/
def trackPeer (now : Nat) (addr : String) (next : Nat) : RaftNode :=
  { node with
    nextIndex := node.nextIndex.set addr next
    matchIndex := node.matchIndex.set addr 0
    lastHeardFrom := node.lastHeardFrom.set addr now }

def configEntry (op : ConfigOp) (addr : String) : LogEntry where
  term := node.currentTerm
  index := node.log.lastIndex + 1
  isConfig := true
  configOp := op
  configPeer := addr

def submitConfigLocked (now : Nat) (op : ConfigOp) (addr : String) :
    RaftNode × List Outgoing :=
  let index := node.log.lastIndex + 1
  let node := { node with log := node.log.append [node.configEntry op addr] }.persist
  -- an added peer is tracked at once, a removed one stays until the entry is applied
  let node := if op = .add
    then { node with peers := node.peers ++ [addr] }.trackPeer now addr index
    else node
  (node, node.replicate)

/-- The flag says whether the caller got `nil` rather than `ErrNotLeader`. -/
def addPeer (now : Nat) (rpcAddr : String) : RaftNode × Bool × List Outgoing :=
  if node.state ≠ .leader then (node, false, [])
  else if rpcAddr = node.config.selfAddr ∨ rpcAddr ∈ node.peers then (node, true, [])
  else
    let (node, out) := node.submitConfigLocked now .add rpcAddr
    (node, true, out)

def removePeer (now : Nat) (rpcAddr : String) : RaftNode × Bool × List Outgoing :=
  if node.state ≠ .leader then (node, false, [])
  else if rpcAddr = node.config.selfAddr ∨ rpcAddr ∈ node.peers then
    let (node, out) := node.submitConfigLocked now .remove rpcAddr
    (node, true, out)
  else (node, true, [])

/-- The node itself was removed: it forgets its peers, and stops leading. -/
def leaveCluster : RaftNode :=
  let node := { node with
    peers := []
    nextIndex := fun _ => none
    matchIndex := fun _ => none }
  if node.state = .leader then { node with state := .follower, leaderID := "" } else node

def applyConfigEntry (now : Nat) (entry : LogEntry) : RaftNode :=
  match entry.configOp with
  | .add =>
    if entry.configPeer = node.config.selfAddr ∨ entry.configPeer ∈ node.peers then node
    else
      let node := { node with peers := node.peers ++ [entry.configPeer] }
      if node.state = .leader
      then node.trackPeer now entry.configPeer (node.log.lastIndex + 1)
      else node
  | .remove =>
    if entry.configPeer = node.config.selfAddr then node.leaveCluster
    else { node with
      peers := node.peers.filter (· ≠ entry.configPeer)
      nextIndex := node.nextIndex.delete entry.configPeer
      matchIndex := node.matchIndex.delete entry.configPeer }
  | .unset => node

end RaftGo.Raft.RaftNode
