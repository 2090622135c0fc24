import RaftGo.KvStore.Store
import RaftGo.Raft.Membership

/-! One server process: the Raft node, its apply loop (`raft/apply.go`) and the
`KVStore` goroutines (`kvstore/kvstore.go`). Each goroutine is a program counter;
a transition is what happens between two points where the lock it needs is free
to be taken by another goroutine. -/

namespace RaftGo.KvStore

open Raft

inductive ApplyMsg where
  | entry (index term : Nat) (command : Bytes) (result : ApplyResult)
  | snapshot (index term : Nat) (data : Bytes)
deriving DecidableEq, Repr

def ApplyMsg.isSnapshot : ApplyMsg → Bool
  | .entry .. => false
  | .snapshot .. => true

/-- Where the apply loop stands. -/
inductive ApplyLoop where
  /-- at the outer `select` -/
  | select
  /-- holds a snapshot, before `Restore` -/
  | restore (snap : SnapshotToApply)
  /-- about to take the lock and test `lastApplied < commitIndex` -/
  | relock
  /-- holds an entry, without the lock, before `Apply` -/
  | apply (entry : LogEntry)
  /-- blocked on the send to `applyCh` -/
  | deliver (msg : ApplyMsg)
deriving DecidableEq, Repr

/-- The channel a ready `select` takes. -/
inductive Branch where
  | snapshot
  | commit
deriving DecidableEq, Repr

/-- Where `readApplyCh` stands. -/
inductive Reader where
  | receive
  | route (msg : ApplyMsg)
  /-- before `kv.Snapshot()` -/
  | capture
  /-- before `node.TakeSnapshot(data)` -/
  | take (data : Bytes)
deriving DecidableEq, Repr

/-- The next thing `readApplyCh` does is to call `TakeSnapshot`. -/
def Reader.takesSnapshot : Reader → Bool
  | .take _ => true
  | _ => false

structure PendingCall where
  term : Nat
  caller : Nat
deriving DecidableEq, Repr

inductive CallState where
  /-- `Submit` has returned, the call is not registered yet -/
  | submitted
  | waiting
  | returned (result : Except KvError String)
deriving DecidableEq

/-- A client goroutine inside `call`. `inbox` is its buffered channel. -/
structure ClientCall where
  op : Op
  index : Nat
  term : Nat
  state : CallState
  inbox : Option ApplyResult := none
deriving DecidableEq

structure Process where
  node : RaftNode
  /-- How often the process has been started before. -/
  boots : Nat := 0
  /-- Goroutines spawned that have not taken the lock yet. -/
  preVotes : Nat := 0
  elections : Nat := 0
  loop : ApplyLoop := .select
  applyCh : List ApplyMsg := []
  data : Data := ∅
  pending : Nat → Option PendingCall := fun _ => none
  snapshotThreshold : Nat := 100
  reader : Reader := .receive
  applied : Nat := 0
  calls : List ClientCall := []

def applyChCapacity : Nat := 64

/-- `New` and the head of `Run` over a data directory. -/
def Process.start (codec : Codec) (cfg : Config) (threshold boots : Nat) (disk : Disk) : Process where
  node := boot cfg disk
  boots := boots
  snapshotThreshold := threshold
  data := match disk.snapshot with
    | none => ∅
    | some file => if file.index = 0 then ∅ else restore codec ∅ file.data

namespace Process

variable (codec : Codec) (now : Nat) (process : Process)

def withNode (node : RaftNode) : Process := { process with node := node }

/-- The locked part of the inner loop: take the next committed entry. -/
def takeEntry : Process :=
  if process.node.lastApplied < process.node.commitIndex then
    let node := { process.node with lastApplied := process.node.lastApplied + 1 }
    let entry := node.log.get node.lastApplied
    if entry.isConfig then { process with node := node.applyConfigEntry now entry }
    else { process with node := node, loop := .apply entry }
  else { process with loop := .select }

/-- One transition of the apply loop; `branch` only matters at the `select`. -/
def applyLoop (branch : Branch) : Option Process :=
  match process.loop with
  | .select =>
    match branch with
    | .snapshot => process.node.snapshotNotifyC.map fun snap => { process with
        node := { process.node with snapshotNotifyC := none }
        loop := .restore snap }
    | .commit =>
      if process.node.commitNotifyC then some { process with
        node := { process.node with commitNotifyC := false }
        loop := .relock }
      else none
  | .restore snap => some { process with
      data := restore codec process.data snap.data
      loop := .deliver (.snapshot snap.index snap.term snap.data) }
  | .relock => some (process.takeEntry now)
  | .apply entry =>
    let (data, result) := apply codec process.data entry.command
    some { process with
      data := data
      loop := .deliver (.entry entry.index entry.term entry.command result) }
  | .deliver msg =>
    if process.applyCh.length < applyChCapacity then some { process with
      applyCh := process.applyCh ++ [msg]
      loop := if msg.isSnapshot then .select else .relock }
    else none

/-- Send on the buffered channel of a client call. -/
def answer (caller : Nat) (result : ApplyResult) : Process :=
  { process with calls := process.calls.modify caller fun call =>
      { call with inbox := some result } }

def failAllPending : Process :=
  { process with
    calls := process.calls.mapIdx fun caller call =>
      match process.pending call.index with
      | some waiting => if waiting.caller = caller
          then { call with inbox := some { err := some .notLeader } } else call
      | none => call
    pending := fun _ => none }

/-- Hand the result of an applied entry to the call waiting for its index. -/
def routeEntry (index term : Nat) (result : ApplyResult) : Process :=
  match process.pending index with
  | none => process
  | some call =>
    let process := { process with
      pending := Function.update process.pending index none }
    if call.term ≠ term then process.answer call.caller { err := some .notLeader }
    else process.answer call.caller result

def snapshotDue : Bool :=
  process.snapshotThreshold > 0 && process.applied % process.snapshotThreshold = 0

/-- One transition of `readApplyCh`; `saved` only matters for `TakeSnapshot`. -/
def readApplyCh (saved : Bool) : Option Process :=
  match process.reader with
  | .receive =>
    match process.applyCh with
    | [] => none
    | msg :: rest => some { process with applyCh := rest, reader := .route msg }
  | .route (.snapshot index _ _) =>
    some { process.failAllPending with applied := index, reader := .receive }
  | .route (.entry index term _ result) =>
    let process := { process with applied := process.applied + 1 }.routeEntry index term result
    some { process with reader := if process.snapshotDue then .capture else .receive }
  | .capture => some { process with reader := .take (codec.encodeData process.data) }
  | .take data => some { process with
      node := process.node.takeSnapshot data saved
      reader := .receive }

/-- `call` up to the return of `Submit`. -/
def startCall (op : Op) : Process :=
  match process.node.submit (codec.encodeOp op) with
  | (_, none, _) => { process with calls := process.calls ++
      [{ op, index := 0, term := 0, state := .returned (.error .notLeader) }] }
  | (node, some (index, term), _) => { process with
      node := node
      calls := process.calls ++ [{ op, index, term, state := .submitted }] }

def registerCall (caller : Nat) : Option Process :=
  match process.calls[caller]? with
  | some call => match call.state with
    | .submitted => some { process with
        pending := Function.update process.pending call.index (some ⟨call.term, caller⟩)
        calls := process.calls.set caller { call with state := .waiting } }
    | _ => none
  | none => none

/-- The call receives the result and returns it. -/
def finishCall (caller : Nat) : Option Process :=
  match process.calls[caller]? with
  | some call => match call.state, call.inbox with
    | .waiting, some result => some { process with
        calls := process.calls.set caller { call with
          state := .returned (match result.err with
            | none => .ok result.value
            | some err => .error err)
          inbox := none } }
    | _, _ => none
  | none => none

/-- Five seconds have passed: whatever call is pending at the index is dropped. -/
def timeOutCall (caller : Nat) : Option Process :=
  match process.calls[caller]? with
  | some call => match call.state with
    | .waiting => some { process with
        pending := Function.update process.pending call.index none
        calls := process.calls.set caller { call with state := .returned (.error .timeout) } }
    | _ => none
  | none => none

end Process

/-- What can happen to a process: a request or a reply arrives, or one of its
timers, goroutines and callers makes a transition. -/
inductive Input where
  | requestVote (args : RequestVoteArgs)
  | appendEntries (args : AppendEntriesArgs)
  | installSnapshot (args : InstallSnapshotArgs) (saved : Bool)
  | voteReply (term votes majority : Nat) (reply : RequestVoteReply)
  | appendReply (peer : String) (term : Nat) (args : AppendEntriesArgs)
      (reply : AppendEntriesReply)
  | installReply (peer : String) (term : Nat) (args : InstallSnapshotArgs)
      (reply : InstallSnapshotReply)
  | electionTimeout
  | startPreVote
  | becomeCandidate
  | startElection
  | heartbeat
  | resetTimer
  | applyLoop (branch : Branch)
  | readApplyCh (saved : Bool)
  | call (op : Op)
  | registerCall (caller : Nat)
  | finishCall (caller : Nat)
  | timeOutCall (caller : Nat)
  | addPeer (rpcAddr : String)
  | removePeer (rpcAddr : String)
deriving DecidableEq

namespace Process

variable (codec : Codec) (now : Nat) (process : Process)

def step (input : Input) : Option Process :=
  match input with
  | .requestVote args => process.withNode (process.node.handleRequestVote now args).1
  | .appendEntries args => process.withNode (process.node.handleAppendEntries now args).1
  | .installSnapshot args saved =>
    process.withNode (process.node.handleInstallSnapshot args saved).1
  | .voteReply term votes majority reply =>
    process.withNode (process.node.handleVoteReply now term votes majority reply).1
  | .appendReply peer term args reply =>
    process.withNode (process.node.handleAppendReply now peer term args reply)
  | .installReply peer term args reply =>
    process.withNode (process.node.handleInstallReply peer term args reply)
  | .electionTimeout =>
    if process.node.eligible then some { process with preVotes := process.preVotes + 1 }
    else process
  | .startPreVote =>
    if process.preVotes = 0 then none
    else some { process with preVotes := process.preVotes - 1 }
  | .becomeCandidate =>
    if process.node.eligible then some { process with
      node := process.node.becomeCandidate
      elections := process.elections + 1 }
    else process
  | .startElection =>
    if process.elections = 0 then none
    else some { process with elections := process.elections - 1 }
  | .heartbeat => process.withNode (process.node.heartbeatTick now).1
  | .resetTimer =>
    if process.node.heartbeatC then process.withNode { process.node with heartbeatC := false }
    else none
  | .applyLoop branch => process.applyLoop codec now branch
  | .readApplyCh saved => process.readApplyCh codec saved
  | .call op => process.startCall codec op
  | .registerCall caller => process.registerCall caller
  | .finishCall caller => process.finishCall caller
  | .timeOutCall caller => process.timeOutCall caller
  | .addPeer rpcAddr => process.withNode (process.node.addPeer now rpcAddr).1
  | .removePeer rpcAddr => process.withNode (process.node.removePeer now rpcAddr).1

/-- The RPCs an input makes the process send. -/
def outgoing (input : Input) : List Outgoing :=
  match input with
  | .heartbeat => (process.node.heartbeatTick now).2
  | .call op => (process.node.submit (codec.encodeOp op)).2.2
  | .addPeer rpcAddr => (process.node.addPeer now rpcAddr).2.2
  | .removePeer rpcAddr => (process.node.removePeer now rpcAddr).2.2
  | _ => []

variable {codec} {now} {process} {after : Process}

theorem step_startPreVote (stepped : process.step codec now .startPreVote = some after) :
    process.preVotes ≠ 0 ∧ after = { process with preVotes := process.preVotes - 1 } := by
  simp only [step] at stepped
  split at stepped
  · cases stepped
  · rename_i spawned
    exact ⟨spawned, (Option.some.inj stepped).symm⟩

theorem step_startElection (stepped : process.step codec now .startElection = some after) :
    process.elections ≠ 0 ∧ after = { process with elections := process.elections - 1 } := by
  simp only [step] at stepped
  split at stepped
  · cases stepped
  · rename_i spawned
    exact ⟨spawned, (Option.some.inj stepped).symm⟩

end Process

end RaftGo.KvStore
