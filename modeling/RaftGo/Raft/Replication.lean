import Mathlib.Data.List.Sort
import RaftGo.Raft.Snapshot

/-! Log replication (`raft/replication.go`, and `Submit` of `raft/node.go`).
Requests to peers are returned as data; the goroutines that carry them belong to
the cluster. -/

namespace RaftGo.Raft

/-- An RPC a node has decided to send, with the term it was built in. -/
inductive Outgoing where
  | append (peer : String) (term : Nat) (args : AppendEntriesArgs)
  | install (peer : String) (term : Nat) (args : InstallSnapshotArgs)
deriving DecidableEq, Repr

/-- The merge loop of `HandleAppendEntries`. -/
def Log.mergeEntries (log : Log) : List LogEntry → Log
  | [] => log
  | entry :: rest =>
    if entry.index ≤ log.snapshotIndex then log.mergeEntries rest
    else
      let existing := log.get entry.index
      if existing.term = 0 then log.append (entry :: rest)
      else if existing.term ≠ entry.term then
        (log.truncateFrom entry.index).append (entry :: rest)
      else log.mergeEntries rest

/-- The index at which the merge loop calls `TruncateFrom`, if it does. -/
def Log.truncation (log : Log) : List LogEntry → Option Nat
  | [] => none
  | entry :: rest =>
    if entry.index ≤ log.snapshotIndex then log.truncation rest
    else
      let existing := log.get entry.index
      if existing.term = 0 then none
      else if existing.term ≠ entry.term then some entry.index
      else log.truncation rest

namespace RaftNode

variable (node : RaftNode)

def buildArgsLocked (peer : String) : AppendEntriesArgs :=
  -- every caller has checked that nextIndex lies above the snapshot boundary
  let next := node.nextIndex.read peer
  { term := node.currentTerm
    leaderID := node.id
    prevLogIndex := next - 1
    prevLogTerm := (node.log.get (next - 1)).term
    entries := node.log.slice next (node.log.lastIndex + 1)
    leaderCommit := node.commitIndex }

/-- The RPC for one peer: a snapshot if the entries it needs are compacted. -/
def replicateTo (peer : String) : Outgoing :=
  if node.nextIndex.read peer ≤ node.log.snapshotIndex then
    .install peer node.currentTerm node.buildSnapshotArgsLocked
  else .append peer node.currentTerm (node.buildArgsLocked peer)

def replicate : List Outgoing := node.peers.map node.replicateTo

def sendHeartbeats : RaftNode × List Outgoing :=
  ({ node with heartbeatsSent := node.heartbeatsSent + 1 }, node.replicate)

/-- The heartbeat ticker branch of `Run`: whether the node still leads is not
tested again after `checkQuorum`. -/
def heartbeatTick (now : Nat) : RaftNode × List Outgoing :=
  if node.state = .leader then (node.checkQuorum now).sendHeartbeats else (node, [])

/-- The index and term of the new entry, or nothing for `ErrNotLeader`. -/
def submit (command : Bytes) : RaftNode × Option (Nat × Nat) × List Outgoing :=
  if node.state ≠ .leader then (node, none, [])
  else
    let index := node.log.lastIndex + 1
    let term := node.currentTerm
    let node := { node with log := node.log.append [{ term, index, command }] }.persist
    (node, some (index, term), node.replicate)

/-- The replication progress of leader and peers in descending order, read at
the position of the majority. -/
def quorumIndex : Nat :=
  let indices := (node.log.lastIndex :: node.peers.map node.matchIndex.read).insertionSort (· ≥ ·)
  indices[node.majority - 1]?.getD 0

def maybeCommit : RaftNode :=
  if node.quorumIndex > node.commitIndex ∧ (node.log.get node.quorumIndex).term = node.currentTerm
  then { node with commitIndex := node.quorumIndex }.notifyCommit
  else node

/-- Where a rejected `AppendEntries` makes the leader continue. -/
def conflictNext (reply : AppendEntriesReply) : Nat :=
  if reply.conflictTerm = 0 then reply.conflictIndex
  else
    let found := node.log.lastIndexForTerm reply.conflictTerm node.log.lastIndex
    if found > 0 then found + 1 else reply.conflictIndex

/-- A reply to the leader's own term arrived: record the contact and the progress. -/
def recordReply (now : Nat) (peer : String) (args : AppendEntriesArgs)
    (reply : AppendEntriesReply) : RaftNode :=
  let node := { node with lastHeardFrom := node.lastHeardFrom.set peer now }
  if reply.success then
    (node.advanceMatch peer (args.prevLogIndex + args.entries.length)).maybeCommit
  else { node with nextIndex := node.nextIndex.set peer (max (node.conflictNext reply) 1) }

/-- `sendToPeer` after the reply arrived; `term` is the term the RPC was built in. -/
def handleAppendReply (now : Nat) (peer : String) (term : Nat) (args : AppendEntriesArgs)
    (reply : AppendEntriesReply) : RaftNode :=
  if reply.term > node.currentTerm then node.becomeFollower reply.term
  else if node.state ≠ .leader ∨ node.currentTerm ≠ term then node
  else node.recordReply now peer args reply

/-- Why the consistency check refuses the entries, if it does: the conflict term
and index of the reply. -/
def prevConflict (args : AppendEntriesArgs) : Option (Nat × Nat) :=
  if args.prevLogIndex > 0 then
    let prev := node.log.get args.prevLogIndex
    if prev.term = 0 then some (0, node.log.lastIndex + 1)
    else if prev.term ≠ args.prevLogTerm then
      some (prev.term, node.log.firstIndexForTerm prev.term)
    else none
  else none

def advanceCommit (leaderCommit : Nat) : RaftNode :=
  if leaderCommit > node.commitIndex then
    { node with commitIndex := min leaderCommit node.log.lastIndex }.notifyCommit
  else node

/-- The term checks at the head of `HandleAppendEntries`. -/
def observeLeader (term : Nat) : RaftNode :=
  if term > node.currentTerm then node.becomeFollower term
  else if term = node.currentTerm ∧ node.state = .candidate then
    { node with state := .follower }
  else node

def contacted (now : Nat) (leaderID : String) : RaftNode :=
  { node with leaderID := leaderID, lastLeaderContact := some now }.notifyHeartbeat

/-- The consistency check passed: merge the entries, advance `commitIndex`,
persist. -/
def acceptEntries (args : AppendEntriesArgs) : RaftNode :=
  let node := ({ node with log := node.log.mergeEntries args.entries }.advanceCommit
    args.leaderCommit).persist
  if args.entries.isEmpty then { node with heartbeatsRecv := node.heartbeatsRecv + 1 } else node

def handleAppendEntries (now : Nat) (args : AppendEntriesArgs) :
    RaftNode × AppendEntriesReply :=
  let node := node.observeLeader args.term
  if args.term < node.currentTerm then (node, { term := node.currentTerm })
  else
    let node := node.contacted now args.leaderID
    match node.prevConflict args with
    | some (conflictTerm, conflictIndex) =>
      (node, { term := node.currentTerm, conflictTerm, conflictIndex })
    | none => (node.acceptEntries args, { term := node.currentTerm, success := true })

/-- The index at which `HandleAppendEntries` truncates the log, if it does. -/
def truncationIndex (args : AppendEntriesArgs) : Option Nat :=
  let node := node.observeLeader args.term
  if args.term < node.currentTerm then none
  else match node.prevConflict args with
    | some _ => none
    | none => node.log.truncation args.entries

end RaftNode

end RaftGo.Raft
