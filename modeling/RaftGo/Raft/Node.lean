import Mathlib.Logic.Function.Basic
import RaftGo.Raft.Log

/-! The state of a single node, the messages it exchanges and what it keeps on
disk (`raft/node.go`, `raft/rpc.go`, `raft/persist.go`). Times are natural
numbers of nanoseconds; the zero `time.Time` is `none`. -/

namespace RaftGo.Raft

inductive NodeState where
  | follower
  | candidate
  | leader
deriving DecidableEq, Repr

structure Config where
  id : String
  peers : List String
  electionTimeoutMinMs : Nat := 0
  electionTimeoutMaxMs : Nat := 0
  heartbeatIntervalMs : Nat := 0
  selfAddr : String := ""
deriving DecidableEq, Repr

structure RequestVoteArgs where
  term : Nat
  candidateID : String
  lastLogIndex : Nat
  lastLogTerm : Nat
  isPreVote : Bool := false
deriving DecidableEq, Repr

structure RequestVoteReply where
  term : Nat
  voteGranted : Bool := false
deriving DecidableEq, Repr

structure AppendEntriesArgs where
  term : Nat
  leaderID : String
  prevLogIndex : Nat
  prevLogTerm : Nat
  entries : List LogEntry
  leaderCommit : Nat
deriving DecidableEq, Repr

structure AppendEntriesReply where
  term : Nat
  success : Bool := false
  conflictTerm : Nat := 0
  conflictIndex : Nat := 0
deriving DecidableEq, Repr

structure InstallSnapshotArgs where
  term : Nat
  leaderID : String
  lastIncludedIndex : Nat
  lastIncludedTerm : Nat
  data : Bytes
deriving DecidableEq, Repr

structure InstallSnapshotReply where
  term : Nat
deriving DecidableEq, Repr

/-- A snapshot handed to the apply loop. -/
structure SnapshotToApply where
  index : Nat
  term : Nat
  data : Bytes
deriving DecidableEq, Repr

structure PersistedState where
  currentTerm : Nat
  votedFor : String
  entries : Log
deriving DecidableEq, Repr

structure SnapshotFile where
  index : Nat
  term : Nat
  data : Bytes
deriving DecidableEq, Repr

/-- The data directory: `raft-state.bin` and `raft-snapshot.bin`, each replaced
as a whole by a rename. -/
structure Disk where
  state : Option PersistedState := none
  snapshot : Option SnapshotFile := none
deriving DecidableEq, Repr

/-- A Go map from strings; reading an absent key gives the zero value. -/
abbrev Table (α : Type) := String → Option α

def Table.read (table : Table Nat) (key : String) : Nat := (table key).getD 0

def Table.set {α : Type} (table : Table α) (key : String) (value : α) : Table α :=
  Function.update table key (some value)

def Table.delete {α : Type} (table : Table α) (key : String) : Table α :=
  Function.update table key none

theorem Table.read_set (table : Table Nat) (key : String) (value : Nat) (other : String) :
    (table.set key value).read other = if other = key then value else table.read other := by
  by_cases same : other = key <;> simp [read, set, same]

structure RaftNode where
  config : Config
  id : String
  peers : List String
  currentTerm : Nat := 0
  votedFor : String := ""
  log : Log := .new
  state : NodeState := .follower
  commitIndex : Nat := 0
  lastApplied : Nat := 0
  nextIndex : Table Nat := fun _ => none
  matchIndex : Table Nat := fun _ => none
  lastHeardFrom : Table Nat := fun _ => none
  leaderID : String := ""
  lastLeaderContact : Option Nat := none
  snapshotData : Bytes := []
  snapshotNotifyC : Option SnapshotToApply := none
  heartbeatC : Bool := false
  commitNotifyC : Bool := false
  heartbeatsRecv : Nat := 0
  heartbeatsSent : Nat := 0
  disk : Disk := {}
  /-- Every content the data directory has gone through since the node started,
  oldest first: the points a crash can fall back to. -/
  journal : List Disk := []

def millisecond : Nat := 1000000

/-- A zero timing option takes its default. -/
def orDefault (value default : Nat) : Nat := if value = 0 then default else value

def newRaftNode (cfg : Config) : RaftNode where
  config := { cfg with
    electionTimeoutMinMs := orDefault cfg.electionTimeoutMinMs 150
    electionTimeoutMaxMs := orDefault cfg.electionTimeoutMaxMs 300
    heartbeatIntervalMs := orDefault cfg.heartbeatIntervalMs 50 }
  id := cfg.id
  peers := cfg.peers

namespace RaftNode

variable (node : RaftNode)

/-- The number of votes or acknowledgements, itself included, a node needs. -/
def majority : Nat := (node.peers.length + 1) / 2 + 1

def notifyHeartbeat : RaftNode := { node with heartbeatC := true }

def notifyCommit : RaftNode := { node with commitNotifyC := true }

/-- Replace the content of the data directory. -/
def write (disk : Disk) : RaftNode :=
  { node with disk := disk, journal := node.journal ++ [disk] }

/-- The contents of the data directory on the way to `after`, without the last. -/
def passing (after : RaftNode) : List Disk :=
  (after.journal.drop node.journal.length).dropLast

def persist : RaftNode :=
  node.write { node.disk with
    state := some {
      currentTerm := node.currentTerm
      votedFor := node.votedFor
      entries := node.log } }

def loadState : RaftNode :=
  match node.disk.state with
  | none => node
  | some state => { node with
      currentTerm := state.currentTerm
      votedFor := state.votedFor
      log := state.entries }

/-- `saved` says whether writing the file succeeded. -/
def saveSnapshot (index term : Nat) (data : Bytes) (saved : Bool) : Option RaftNode :=
  if saved then some (node.write { node.disk with snapshot := some { index, term, data } })
  else none

/-- The node part of `restoreFromSnapshot`; the state machine is restored from
the same file by the process that owns it. -/
def restoreFromSnapshot : RaftNode :=
  match node.disk.snapshot with
  | none => node
  | some file =>
    if file.index = 0 then node
    else { node with
      snapshotData := file.data
      log := node.log.compactTo file.index file.term
      lastApplied := max node.lastApplied file.index
      commitIndex := max node.commitIndex file.index }

end RaftNode

/-- A node started over a data directory, as `Run` leaves it before its loops. -/
def boot (cfg : Config) (disk : Disk) : RaftNode :=
  ({ newRaftNode cfg with disk := disk }.loadState).restoreFromSnapshot

end RaftGo.Raft
