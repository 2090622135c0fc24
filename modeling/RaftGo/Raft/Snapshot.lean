import RaftGo.Raft.Election

/-! Log compaction and snapshot transfer (`raft/snapshot.go`). Whether writing a
snapshot file succeeded is an input. -/

namespace RaftGo.Raft.RaftNode

variable (node : RaftNode)

def takeSnapshot (data : Bytes) (saved : Bool) : RaftNode :=
  let index := node.lastApplied
  if index = 0 ∨ index ≤ node.log.snapshotIndex then node
  else
    let term := (node.log.get index).term
    match node.saveSnapshot index term data saved with
    | none => node
    | some node => { node with
        snapshotData := data
        log := node.log.compactTo index term }.persist

def buildSnapshotArgsLocked : InstallSnapshotArgs where
  term := node.currentTerm
  leaderID := node.id
  lastIncludedIndex := node.log.snapshotIndex
  lastIncludedTerm := node.log.snapshotTerm
  data := node.snapshotData

/-- The file of a snapshot ahead of the node's own has been saved: jump to it and
hand it to the apply loop. -/
def installSnapshot (args : InstallSnapshotArgs) : RaftNode :=
  let node := { node with
    snapshotData := args.data
    log := node.log.compactTo args.lastIncludedIndex args.lastIncludedTerm
    lastApplied := max node.lastApplied args.lastIncludedIndex
    commitIndex := max node.commitIndex args.lastIncludedIndex }.persist
  -- a pending notification is drained first, so the newest snapshot wins
  { node with snapshotNotifyC := some {
      index := args.lastIncludedIndex
      term := args.lastIncludedTerm
      data := args.data } }

def handleInstallSnapshot (args : InstallSnapshotArgs) (saved : Bool) :
    RaftNode × InstallSnapshotReply :=
  let node := node.stepDown args.term
  let reply : InstallSnapshotReply := { term := node.currentTerm }
  if args.term < node.currentTerm then (node, reply)
  else
    let node := { node with leaderID := args.leaderID }.notifyHeartbeat
    if args.lastIncludedIndex ≤ node.log.snapshotIndex then (node, reply)
    else
      match node.saveSnapshot args.lastIncludedIndex args.lastIncludedTerm args.data saved with
      | none => (node, reply)
      | some node => (node.installSnapshot args, reply)

/-- `matchIndex` of the peer is only written when it grows; `nextIndex` follows it. -/
def advanceMatch (peer : String) (newMatch : Nat) : RaftNode :=
  let node := if newMatch > node.matchIndex.read peer
    then { node with matchIndex := node.matchIndex.set peer newMatch }
    else node
  { node with nextIndex := node.nextIndex.set peer (node.matchIndex.read peer + 1) }

/-- `sendSnapshotToPeer` after the reply arrived; `term` is the term the RPC was
built in. -/
def handleInstallReply (peer : String) (term : Nat) (args : InstallSnapshotArgs)
    (reply : InstallSnapshotReply) : RaftNode :=
  if reply.term > node.currentTerm then node.becomeFollower reply.term
  else if node.state ≠ .leader ∨ node.currentTerm ≠ term then node
  else node.advanceMatch peer args.lastIncludedIndex

end RaftGo.Raft.RaftNode
