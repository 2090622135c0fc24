import RaftGo.KvStore.Process
import RaftGo.Library.System

/-! A cluster of server processes and the RPC goroutines between them. A request
is delivered at most once, a reply is consumed at most once, and either may be
delayed forever; a goroutine dies with the process that started it. -/

namespace RaftGo

open Raft KvStore Library

/-- How the processes are set up: `addr` is where the network delivers requests. -/
structure Deployment (ι : Type) where
  config : ι → Config
  addr : ι → String
  codec : Codec
  snapshotThreshold : Nat := 100

inductive Phase (Reply : Type) where
  | requested
  | replied (reply : Reply)
  | resumed (reply : Reply)
deriving DecidableEq, Repr

/-- A goroutine of `sendToPeer` or `sendSnapshotToPeer`; `boot` is the
incarnation of the caller it belongs to. -/
structure Rpc (ι Args Reply : Type) where
  caller : ι
  boot : Nat
  peer : String
  term : Nat
  args : Args
  phase : Phase Reply

def Rpc.setPhase {ι Args Reply : Type} (rpc : Rpc ι Args Reply) (phase : Phase Reply) :
    Rpc ι Args Reply :=
  { rpc with phase := phase }

abbrev AppendRpc (ι : Type) := Rpc ι AppendEntriesArgs AppendEntriesReply

abbrev InstallRpc (ι : Type) := Rpc ι InstallSnapshotArgs InstallSnapshotReply

/-- One run of `startPreVote` or `startElection` with its goroutines, one for
each peer, and the vote counter they share. -/
structure Poll (ι : Type) where
  caller : ι
  boot : Nat
  args : RequestVoteArgs
  calls : List (String × Phase RequestVoteReply)
  votes : Nat := 1
  /-- A pre-vote that returned has been acted on. -/
  finished : Bool := false

namespace Poll

variable {ι : Type} (poll : Poll ι)

/-- The goroutines of a poll copy the peer list of the node as it is now. -/
def start (caller : ι) (process : Process) (args : RequestVoteArgs) : Poll ι where
  caller := caller
  boot := process.boots
  args := args
  calls := process.node.peers.map fun peer => (peer, .requested)

def majority : Nat := (poll.calls.length + 1) / 2 + 1

def setPhase (call : Nat) (phase : Phase RequestVoteReply) : Poll ι :=
  { poll with calls := poll.calls.modify call fun (peer, _) => (peer, phase) }

def count (counted : Bool) : Poll ι :=
  { poll with votes := if counted then poll.votes + 1 else poll.votes }

section Fields

variable (call : Nat) (phase : Phase RequestVoteReply) (counted : Bool)

@[simp] theorem caller_setPhase : (poll.setPhase call phase).caller = poll.caller := rfl

@[simp] theorem args_setPhase : (poll.setPhase call phase).args = poll.args := rfl

@[simp] theorem votes_setPhase : (poll.setPhase call phase).votes = poll.votes := rfl

@[simp] theorem caller_count : (poll.count counted).caller = poll.caller := rfl

@[simp] theorem args_count : (poll.count counted).args = poll.args := rfl

@[simp] theorem calls_count : (poll.count counted).calls = poll.calls := rfl

@[simp] theorem map_fst_setPhase :
    (poll.setPhase call phase).calls.map Prod.fst = poll.calls.map Prod.fst := by
  apply List.ext_getElem?
  intro index
  simp only [setPhase, List.getElem?_map, List.getElem?_modify]
  cases poll.calls[index]? <;> simp
  split <;> rfl

end Fields

end Poll

structure Cluster (ι : Type) where
  clock : Nat := 0
  process : ι → Process
  polls : List (Poll ι) := []
  appends : List (AppendRpc ι) := []
  installs : List (InstallRpc ι) := []

namespace Cluster

variable {ι : Type} (cluster : Cluster ι)

def addPoll (poll : Poll ι) : Cluster ι := { cluster with polls := cluster.polls ++ [poll] }

def setPoll (index : Nat) (poll : Poll ι) : Cluster ι :=
  { cluster with polls := cluster.polls.set index poll }

def setAppend (index : Nat) (rpc : AppendRpc ι) : Cluster ι :=
  { cluster with appends := cluster.appends.set index rpc }

def setInstall (index : Nat) (rpc : InstallRpc ι) : Cluster ι :=
  { cluster with installs := cluster.installs.set index rpc }

end Cluster

/-- Inputs that need no message. -/
def KvStore.Input.isInternal : Input → Bool
  | .electionTimeout | .heartbeat | .resetTimer | .applyLoop _ | .readApplyCh _
  | .call _ | .registerCall _ | .finishCall _ | .timeOutCall _
  | .addPeer _ | .removePeer _ => true
  | _ => false

inductive Action (ι : Type) where
  | tick (elapsed : Nat)
  | internal (i : ι) (input : Input)
  | startPreVote (i : ι)
  | startElection (i : ι)
  | serveVote (poll call : Nat) (target : ι)
  | resumePreVote (poll call : Nat)
  | becomeCandidate (poll : Nat)
  | resumeVote (poll call : Nat)
  | serveAppend (rpc : Nat) (target : ι)
  | resumeAppend (rpc : Nat)
  | serveInstall (rpc : Nat) (target : ι) (saved : Bool)
  | resumeInstall (rpc : Nat)
deriving DecidableEq

inductive Event (ι : Type) where
  | run (action : Action ι)
  /-- Process `i` crashes inside the action, after some but not all of the writes
  to its data directory that the action makes. -/
  | interrupt (action : Action ι) (i : ι) (writes : Nat)
  | crash (i : ι)
deriving DecidableEq

def Raft.Outgoing.toAppend {ι : Type} (caller : ι) (boot : Nat) : Outgoing → Option (AppendRpc ι)
  | .append peer term args => some { caller, boot, peer, term, args, phase := .requested }
  | .install .. => none

def Raft.Outgoing.toInstall {ι : Type} (caller : ι) (boot : Nat) :
    Outgoing → Option (InstallRpc ι)
  | .install peer term args => some { caller, boot, peer, term, args, phase := .requested }
  | .append .. => none

namespace Deployment

variable {ι : Type} [DecidableEq ι] (deployment : Deployment ι) (cluster : Cluster ι)

def startProcess (i : ι) (boots : Nat) (disk : Disk) : Process :=
  .start deployment.codec (deployment.config i) deployment.snapshotThreshold boots disk

def initial : Cluster ι where
  process i := deployment.startProcess i 0 {}

/-- Give an input to process `i` and start the goroutines of the RPCs it sends. -/
def feed (i : ι) (input : Input) : Option (Cluster ι) :=
  let process := cluster.process i
  let out := process.outgoing deployment.codec cluster.clock input
  (process.step deployment.codec cluster.clock input).map fun next => { cluster with
    process := Function.update cluster.process i next
    appends := cluster.appends ++ out.filterMap (·.toAppend i process.boots)
    installs := cluster.installs ++ out.filterMap (·.toInstall i process.boots) }

def startPreVote (i : ι) : Option (Cluster ι) := do
  let process := cluster.process i
  let next ← deployment.feed cluster i .startPreVote
  if process.node.peers.isEmpty then some next
  else some (next.addPoll (.start i process process.node.preVoteArgs))

def startElection (i : ι) : Option (Cluster ι) := do
  let process := cluster.process i
  let next ← deployment.feed cluster i .startElection
  some (next.addPoll (.start i process process.node.voteArgs))

def serveVote (index call : Nat) (target : ι) : Option (Cluster ι) := do
  let poll ← cluster.polls[index]?
  let (peer, phase) ← poll.calls[call]?
  if phase = .requested ∧ deployment.addr target = peer then
    let reply := ((cluster.process target).node.handleRequestVote cluster.clock poll.args).2
    let next ← deployment.feed cluster target (.requestVote poll.args)
    some (next.setPoll index (poll.setPhase call (.replied reply)))
  else none

def resumePreVote (index call : Nat) : Option (Cluster ι) := do
  let poll ← cluster.polls[index]?
  let (_, phase) ← poll.calls[call]?
  match phase with
  | .replied reply =>
    if poll.args.isPreVote ∧ poll.boot = (cluster.process poll.caller).boots then
      some (cluster.setPoll index
        ((poll.setPhase call (.resumed reply)).count reply.voteGranted))
    else none
  | _ => none

/-- A pre-vote round won its majority: `Run` stands for election. -/
def becomeCandidate (index : Nat) : Option (Cluster ι) := do
  let poll ← cluster.polls[index]?
  if poll.args.isPreVote ∧ poll.boot = (cluster.process poll.caller).boots ∧
      poll.votes ≥ poll.majority ∧ !poll.finished then
    let next ← deployment.feed cluster poll.caller .becomeCandidate
    some (next.setPoll index { poll with finished := true })
  else none

def resumeVote (index call : Nat) : Option (Cluster ι) := do
  let poll ← cluster.polls[index]?
  let (_, phase) ← poll.calls[call]?
  match phase with
  | .replied reply =>
    let process := cluster.process poll.caller
    if !poll.args.isPreVote ∧ poll.boot = process.boots then
      let counted := (process.node.handleVoteReply cluster.clock poll.args.term poll.votes
        poll.majority reply).2
      let next ← deployment.feed cluster poll.caller
        (.voteReply poll.args.term poll.votes poll.majority reply)
      some (next.setPoll index ((poll.setPhase call (.resumed reply)).count counted))
    else none
  | _ => none

def serveAppend (index : Nat) (target : ι) : Option (Cluster ι) := do
  let rpc ← cluster.appends[index]?
  if rpc.phase = .requested ∧ deployment.addr target = rpc.peer then
    let reply := ((cluster.process target).node.handleAppendEntries cluster.clock rpc.args).2
    let next ← deployment.feed cluster target (.appendEntries rpc.args)
    some (next.setAppend index (rpc.setPhase (.replied reply)))
  else none

def resumeAppend (index : Nat) : Option (Cluster ι) := do
  let rpc ← cluster.appends[index]?
  match rpc.phase with
  | .replied reply =>
    if rpc.boot = (cluster.process rpc.caller).boots then
      let next ← deployment.feed cluster rpc.caller
        (.appendReply rpc.peer rpc.term rpc.args reply)
      some (next.setAppend index (rpc.setPhase (.resumed reply)))
    else none
  | _ => none

def serveInstall (index : Nat) (target : ι) (saved : Bool) : Option (Cluster ι) := do
  let rpc ← cluster.installs[index]?
  if rpc.phase = .requested ∧ deployment.addr target = rpc.peer then
    let reply := ((cluster.process target).node.handleInstallSnapshot rpc.args saved).2
    let next ← deployment.feed cluster target (.installSnapshot rpc.args saved)
    some (next.setInstall index (rpc.setPhase (.replied reply)))
  else none

def resumeInstall (index : Nat) : Option (Cluster ι) := do
  let rpc ← cluster.installs[index]?
  match rpc.phase with
  | .replied reply =>
    if rpc.boot = (cluster.process rpc.caller).boots then
      let next ← deployment.feed cluster rpc.caller
        (.installReply rpc.peer rpc.term rpc.args reply)
      some (next.setInstall index (rpc.setPhase (.resumed reply)))
    else none
  | _ => none

def act : Action ι → Option (Cluster ι)
  | .tick elapsed => some { cluster with clock := cluster.clock + elapsed }
  | .internal i input => if input.isInternal then deployment.feed cluster i input else none
  | .startPreVote i => deployment.startPreVote cluster i
  | .startElection i => deployment.startElection cluster i
  | .serveVote poll call target => deployment.serveVote cluster poll call target
  | .resumePreVote poll call => resumePreVote cluster poll call
  | .becomeCandidate poll => deployment.becomeCandidate cluster poll
  | .resumeVote poll call => deployment.resumeVote cluster poll call
  | .serveAppend rpc target => deployment.serveAppend cluster rpc target
  | .resumeAppend rpc => deployment.resumeAppend cluster rpc
  | .serveInstall rpc target saved => deployment.serveInstall cluster rpc target saved
  | .resumeInstall rpc => deployment.resumeInstall cluster rpc

/-- Process `i` starts over from a data directory. -/
def reboot (i : ι) (disk : Disk) : Cluster ι :=
  let process := deployment.startProcess i ((cluster.process i).boots + 1) disk
  { cluster with process := Function.update cluster.process i process }

def step : Event ι → Option (Cluster ι)
  | .run action => deployment.act cluster action
  | .interrupt action i writes => do
    let next ← deployment.act cluster action
    let disk ← ((cluster.process i).node.passing (next.process i).node)[writes]?
    some (deployment.reboot cluster i disk)
  | .crash i => some (deployment.reboot cluster i (cluster.process i).node.disk)

def system : System (Cluster ι) (Event ι) where
  step := deployment.step

/-! What each action does when it can happen. -/

section Inversion

variable {deployment} {cluster} {next : Cluster ι}

theorem feed_cases {i : ι} {input : Input} (fed : deployment.feed cluster i input = some next) :
    ∃ after, (cluster.process i).step deployment.codec cluster.clock input = some after ∧
      next = { cluster with
        process := Function.update cluster.process i after
        appends := cluster.appends ++
          ((cluster.process i).outgoing deployment.codec cluster.clock input).filterMap
            (·.toAppend i (cluster.process i).boots)
        installs := cluster.installs ++
          ((cluster.process i).outgoing deployment.codec cluster.clock input).filterMap
            (·.toInstall i (cluster.process i).boots) } := by
  obtain ⟨after, stepped, built⟩ := Option.map_eq_some_iff.mp fed
  exact ⟨after, stepped, built.symm⟩

theorem startPreVote_cases {i : ι} (started : deployment.startPreVote cluster i = some next) :
    ∃ fed, deployment.feed cluster i .startPreVote = some fed ∧
      ((cluster.process i).node.peers = [] ∧ next = fed ∨
        (cluster.process i).node.peers ≠ [] ∧
          next = fed.addPoll
            (.start i (cluster.process i) (cluster.process i).node.preVoteArgs)) := by
  simp only [startPreVote, Option.bind_eq_bind, Option.bind_eq_some_iff] at started
  obtain ⟨fed, feeding, built⟩ := started
  refine ⟨fed, feeding, ?_⟩
  split at built
  · rename_i alone
    exact .inl ⟨List.isEmpty_iff.mp alone, (Option.some.inj built).symm⟩
  · rename_i peers
    exact .inr ⟨fun empty => peers (by simp [empty]), (Option.some.inj built).symm⟩

theorem startElection_cases {i : ι} (started : deployment.startElection cluster i = some next) :
    ∃ fed, deployment.feed cluster i .startElection = some fed ∧
      next = fed.addPoll (.start i (cluster.process i) (cluster.process i).node.voteArgs) := by
  simp only [startElection, Option.bind_eq_bind, Option.bind_eq_some_iff] at started
  obtain ⟨fed, feeding, built⟩ := started
  exact ⟨fed, feeding, (Option.some.inj built).symm⟩

theorem serveVote_cases {index call : Nat} {target : ι}
    (served : deployment.serveVote cluster index call target = some next) :
    ∃ poll fed, cluster.polls[index]? = some poll ∧
      poll.calls[call]? = some (deployment.addr target, .requested) ∧
      deployment.feed cluster target (.requestVote poll.args) = some fed ∧
      next = fed.setPoll index (poll.setPhase call (.replied
        ((cluster.process target).node.handleRequestVote cluster.clock poll.args).2)) := by
  simp only [serveVote, Option.bind_eq_bind, Option.bind_eq_some_iff] at served
  obtain ⟨poll, found, ⟨peer, phase⟩, calling, rest⟩ := served
  split at rest
  · rename_i ready
    obtain ⟨rfl, rfl⟩ := ready
    obtain ⟨fed, feeding, built⟩ := Option.bind_eq_some_iff.mp rest
    exact ⟨poll, fed, found, calling, feeding, (Option.some.inj built).symm⟩
  · cases rest

omit [DecidableEq ι] in
theorem resumePreVote_cases {index call : Nat}
    (resumed : resumePreVote cluster index call = some next) :
    ∃ poll peer reply, cluster.polls[index]? = some poll ∧
      poll.calls[call]? = some (peer, .replied reply) ∧ poll.args.isPreVote = true ∧
      next = cluster.setPoll index
        ((poll.setPhase call (.resumed reply)).count reply.voteGranted) := by
  simp only [resumePreVote, Option.bind_eq_bind, Option.bind_eq_some_iff] at resumed
  obtain ⟨poll, found, ⟨peer, phase⟩, calling, rest⟩ := resumed
  cases phase with
  | replied reply =>
    simp only at rest
    split at rest
    · rename_i ready
      exact ⟨poll, peer, reply, found, calling, ready.1, (Option.some.inj rest).symm⟩
    · cases rest
  | _ => cases rest

theorem becomeCandidate_cases {index : Nat}
    (stood : deployment.becomeCandidate cluster index = some next) :
    ∃ poll fed, cluster.polls[index]? = some poll ∧ poll.args.isPreVote = true ∧
      poll.boot = (cluster.process poll.caller).boots ∧ poll.majority ≤ poll.votes ∧
      deployment.feed cluster poll.caller .becomeCandidate = some fed ∧
      next = fed.setPoll index { poll with finished := true } := by
  simp only [becomeCandidate, Option.bind_eq_bind, Option.bind_eq_some_iff] at stood
  obtain ⟨poll, found, rest⟩ := stood
  split at rest
  · rename_i ready
    obtain ⟨fed, feeding, built⟩ := Option.bind_eq_some_iff.mp rest
    exact ⟨poll, fed, found, ready.1, ready.2.1, ready.2.2.1, feeding,
      (Option.some.inj built).symm⟩
  · cases rest

theorem resumeVote_cases {index call : Nat}
    (resumed : deployment.resumeVote cluster index call = some next) :
    ∃ poll peer reply fed, cluster.polls[index]? = some poll ∧
      poll.calls[call]? = some (peer, .replied reply) ∧ poll.args.isPreVote = false ∧
      poll.boot = (cluster.process poll.caller).boots ∧
      deployment.feed cluster poll.caller
        (.voteReply poll.args.term poll.votes poll.majority reply) = some fed ∧
      next = fed.setPoll index ((poll.setPhase call (.resumed reply)).count
        ((cluster.process poll.caller).node.handleVoteReply cluster.clock poll.args.term
          poll.votes poll.majority reply).2) := by
  simp only [resumeVote, Option.bind_eq_bind, Option.bind_eq_some_iff] at resumed
  obtain ⟨poll, found, ⟨peer, phase⟩, calling, rest⟩ := resumed
  cases phase with
  | replied reply =>
    simp only at rest
    split at rest
    · rename_i ready
      obtain ⟨fed, feeding, built⟩ := Option.bind_eq_some_iff.mp rest
      exact ⟨poll, peer, reply, fed, found, calling, by simpa using ready.1, ready.2, feeding,
        (Option.some.inj built).symm⟩
    · cases rest
  | _ => cases rest

theorem serveAppend_cases {index : Nat} {target : ι}
    (served : deployment.serveAppend cluster index target = some next) :
    ∃ rpc fed, cluster.appends[index]? = some rpc ∧ rpc.phase = .requested ∧
      deployment.addr target = rpc.peer ∧
      deployment.feed cluster target (.appendEntries rpc.args) = some fed ∧
      next = fed.setAppend index (rpc.setPhase (.replied
        ((cluster.process target).node.handleAppendEntries cluster.clock rpc.args).2)) := by
  simp only [serveAppend, Option.bind_eq_bind, Option.bind_eq_some_iff] at served
  obtain ⟨rpc, found, rest⟩ := served
  split at rest
  · rename_i ready
    obtain ⟨fed, feeding, built⟩ := Option.bind_eq_some_iff.mp rest
    exact ⟨rpc, fed, found, ready.1, ready.2, feeding, (Option.some.inj built).symm⟩
  · cases rest

theorem resumeAppend_cases {index : Nat}
    (resumed : deployment.resumeAppend cluster index = some next) :
    ∃ rpc reply fed, cluster.appends[index]? = some rpc ∧ rpc.phase = .replied reply ∧
      rpc.boot = (cluster.process rpc.caller).boots ∧
      deployment.feed cluster rpc.caller (.appendReply rpc.peer rpc.term rpc.args reply) =
        some fed ∧
      next = fed.setAppend index (rpc.setPhase (.resumed reply)) := by
  simp only [resumeAppend, Option.bind_eq_bind, Option.bind_eq_some_iff] at resumed
  obtain ⟨rpc, found, rest⟩ := resumed
  cases phase : rpc.phase with
  | replied reply =>
    simp only [phase] at rest
    split at rest
    · rename_i ready
      obtain ⟨fed, feeding, built⟩ := Option.bind_eq_some_iff.mp rest
      exact ⟨rpc, reply, fed, found, phase, ready, feeding, (Option.some.inj built).symm⟩
    · cases rest
  | _ => simp [phase] at rest

theorem serveInstall_cases {index : Nat} {target : ι} {saved : Bool}
    (served : deployment.serveInstall cluster index target saved = some next) :
    ∃ rpc fed, cluster.installs[index]? = some rpc ∧ rpc.phase = .requested ∧
      deployment.addr target = rpc.peer ∧
      deployment.feed cluster target (.installSnapshot rpc.args saved) = some fed ∧
      next = fed.setInstall index (rpc.setPhase (.replied
        ((cluster.process target).node.handleInstallSnapshot rpc.args saved).2)) := by
  simp only [serveInstall, Option.bind_eq_bind, Option.bind_eq_some_iff] at served
  obtain ⟨rpc, found, rest⟩ := served
  split at rest
  · rename_i ready
    obtain ⟨fed, feeding, built⟩ := Option.bind_eq_some_iff.mp rest
    exact ⟨rpc, fed, found, ready.1, ready.2, feeding, (Option.some.inj built).symm⟩
  · cases rest

theorem resumeInstall_cases {index : Nat}
    (resumed : deployment.resumeInstall cluster index = some next) :
    ∃ rpc reply fed, cluster.installs[index]? = some rpc ∧ rpc.phase = .replied reply ∧
      rpc.boot = (cluster.process rpc.caller).boots ∧
      deployment.feed cluster rpc.caller (.installReply rpc.peer rpc.term rpc.args reply) =
        some fed ∧
      next = fed.setInstall index (rpc.setPhase (.resumed reply)) := by
  simp only [resumeInstall, Option.bind_eq_bind, Option.bind_eq_some_iff] at resumed
  obtain ⟨rpc, found, rest⟩ := resumed
  cases phase : rpc.phase with
  | replied reply =>
    simp only [phase] at rest
    split at rest
    · rename_i ready
      obtain ⟨fed, feeding, built⟩ := Option.bind_eq_some_iff.mp rest
      exact ⟨rpc, reply, fed, found, phase, ready, feeding, (Option.some.inj built).symm⟩
    · cases rest
  | _ => simp [phase] at rest

end Inversion

end Deployment

end RaftGo
