import RaftGo.Cluster.PreVote
import RaftGo.Cluster.Representation
import RaftGo.KvStore.Progress

/-! Whom a node takes for its leader. A `leaderID` is set by winning an election or
copied from a request of the node's term, and requests are sent by leaders, so the
node it names was elected in that term. Neither the membership nor the storage
matters for this. -/

namespace RaftGo

open Raft KvStore Library

/-- The term and the leader a request announces. -/
def KvStore.Input.announced? : Input → Option (Nat × String)
  | .appendEntries args => some (args.term, args.leaderID)
  | .installSnapshot args _ => some (args.term, args.leaderID)
  | _ => none

def Raft.Outgoing.announced : Outgoing → Nat × String
  | .append _ _ args => (args.term, args.leaderID)
  | .install _ _ args => (args.term, args.leaderID)

namespace Raft.RaftNode

variable {announced : Option (Nat × String)} {node middle after : RaftNode}

/-- How `leaderID` changes. -/
inductive Allegiance (announced : Option (Nat × String)) (node after : RaftNode) : Prop where
  | keeps (id : after.id = node.id) (leaderID : after.leaderID = node.leaderID)
      (currentTerm : after.currentTerm = node.currentTerm)
  | forgets (id : after.id = node.id) (leaderID : after.leaderID = "")
  | wins (id : after.id = node.id) (leaderID : after.leaderID = node.id)
      (state : after.state = .leader)
  | follows (id : after.id = node.id)
      (heard : announced = some (after.currentTerm, after.leaderID))

theorem id_stepDown (node : RaftNode) (term : Nat) : (node.stepDown term).id = node.id := by
  unfold stepDown
  split <;> rfl

theorem id_observeLeader (node : RaftNode) (term : Nat) :
    (node.observeLeader term).id = node.id := by
  rcases node.observeLeader_cases term with same | ⟨_, _, conceded⟩
  · rw [same, id_stepDown]
  · rw [conceded]

namespace Allegiance

theorem id (allegiance : Allegiance announced node after) : after.id = node.id := by
  cases allegiance <;> assumption

/-- A record update that leaves the leader, the role and the term alone. -/
theorem frame (allegiance : Allegiance announced node middle) (id : after.id = middle.id)
    (leaderID : after.leaderID = middle.leaderID) (state : after.state = middle.state)
    (currentTerm : after.currentTerm = middle.currentTerm) : Allegiance announced node after := by
  cases allegiance with
  | keeps same leader term =>
    exact .keeps (id.trans same) (leaderID.trans leader) (currentTerm.trans term)
  | forgets same leader => exact .forgets (id.trans same) (leaderID.trans leader)
  | wins same leader won => exact .wins (id.trans same) (leaderID.trans leader) (state.trans won)
  | follows same heard => exact .follows (id.trans same) (by rw [heard, currentTerm, leaderID])

theorem stepDown (node : RaftNode) (term : Nat) :
    Allegiance announced node (node.stepDown term) := by
  rcases node.stepDown_cases term with ⟨_, same⟩ | ⟨_, stepped⟩
  · rw [same]
    exact .keeps rfl rfl rfl
  · rw [stepped]
    exact .forgets rfl rfl

theorem handleRequestVote (node : RaftNode) (now : Nat) (args : RequestVoteArgs) :
    Allegiance announced node (node.handleRequestVote now args).1 := by
  rcases node.handleRequestVote_cases now args with ⟨⟨term, stepped⟩, _⟩ | ⟨_, _, _, _, granted⟩
  · rw [stepped]
    exact stepDown node term
  · rw [granted]
    exact (stepDown node args.term).frame rfl rfl rfl rfl

theorem handleVoteReply (node : RaftNode) (now term votes majority : Nat)
    (reply : RequestVoteReply) :
    Allegiance announced node (node.handleVoteReply now term votes majority reply).1 := by
  rcases node.handleVoteReply_cases now term votes majority reply with
    ⟨⟨seen, stepped⟩, _⟩ | ⟨_, _, _, _, won⟩
  · rw [stepped]
    exact stepDown node seen
  · rw [won]
    exact .wins rfl rfl rfl

/-- A request that passes the term check is believed, whether or not its entries are
accepted. -/
theorem handleAppendEntries (node : RaftNode) (now : Nat) (args : AppendEntriesArgs) :
    Allegiance (some (args.term, args.leaderID)) node (node.handleAppendEntries now args).1 := by
  rcases node.handleAppendEntries_cases now args with ⟨_, same, _⟩ | ⟨reached, outcome⟩
  · rw [same]
    exact .keeps rfl rfl rfl
  · have contacted : Allegiance (some (args.term, args.leaderID)) node
        ((node.observeLeader args.term).contacted now args.leaderID) :=
      .follows (id_observeLeader node args.term)
        (congrArg (fun term => some (term, args.leaderID)) reached.symm)
    rcases outcome with ⟨refused, _⟩ | ⟨_, accepted⟩
    · rw [refused]
      exact contacted
    · obtain ⟨signal, received, built⟩ :=
        ((node.observeLeader args.term).contacted now args.leaderID).acceptEntries_eq args
      rw [accepted, built]
      exact contacted.frame rfl rfl rfl rfl

theorem handleInstallSnapshot (node : RaftNode) (args : InstallSnapshotArgs) (saved : Bool) :
    Allegiance (some (args.term, args.leaderID)) node
      (node.handleInstallSnapshot args saved).1 := by
  obtain ⟨relieved, before, outcome⟩ := node.handleInstallSnapshot_cases args saved
  have believed : Allegiance (some (args.term, args.leaderID)) node relieved := by
    cases before with
    | stale => exact stepDown node args.term
    | current reached =>
      exact .follows (id_stepDown node args.term)
        (congrArg (fun term => some (term, args.leaderID)) reached.symm)
  rcases outcome with same | ⟨_, installed⟩
  · rw [same]
    exact believed
  · rw [installed]
    exact believed.frame rfl rfl rfl rfl

theorem handleAppendReply (node : RaftNode) (now : Nat) (peer : String) (term : Nat)
    (args : AppendEntriesArgs) (reply : AppendEntriesReply) :
    Allegiance announced node (node.handleAppendReply now peer term args reply) := by
  rcases node.handleAppendReply_cases now peer term args reply with ⟨seen, stepped⟩ |
    ⟨_, _, recorded⟩
  · rw [stepped]
    exact stepDown node seen
  · obtain ⟨nextIndex, matchIndex, lastHeardFrom, commitIndex, signal, built⟩ :=
      node.recordReply_eq now peer args reply
    rw [recorded, built]
    exact .keeps rfl rfl rfl

theorem handleInstallReply (node : RaftNode) (peer : String) (term : Nat)
    (args : InstallSnapshotArgs) (reply : InstallSnapshotReply) :
    Allegiance announced node (node.handleInstallReply peer term args reply) := by
  rcases node.handleInstallReply_cases peer term args reply with ⟨seen, stepped⟩ |
    ⟨_, _, advanced⟩
  · rw [stepped]
    exact stepDown node seen
  · obtain ⟨nextIndex, matchIndex, built⟩ := node.advanceMatch_eq peer args.lastIncludedIndex
    rw [advanced, built]
    exact .keeps rfl rfl rfl

theorem heartbeatTick (node : RaftNode) (now : Nat) :
    Allegiance announced node (node.heartbeatTick now).1 := by
  unfold RaftNode.heartbeatTick checkQuorum
  split
  · split
    · exact .keeps rfl rfl rfl
    · split
      · exact .forgets rfl rfl
      · exact .keeps rfl rfl rfl
  · exact .keeps rfl rfl rfl

/-- Only a leader that applies its own removal gives up its leader. -/
theorem applyConfigEntry (node : RaftNode) (now : Nat) (entry : LogEntry) :
    Allegiance announced node (node.applyConfigEntry now entry) := by
  unfold RaftNode.applyConfigEntry leaveCluster
  split
  · split
    · exact .keeps rfl rfl rfl
    · dsimp only
      split <;> exact .keeps rfl rfl rfl
  · split
    · dsimp only
      split
      · exact .forgets rfl rfl
      · exact .keeps rfl rfl rfl
    · exact .keeps rfl rfl rfl
  · exact .keeps rfl rfl rfl

end Allegiance

theorem announced_replicate {out : Outgoing} (member : out ∈ node.replicate) :
    out.announced = (node.currentTerm, node.id) := by
  obtain ⟨peer, _, rfl⟩ := List.mem_map.mp member
  unfold replicateTo
  split <;> rfl

end Raft.RaftNode

theorem KvStore.Process.allegiance_step {codec : Codec} {now : Nat} {process after : Process}
    {input : Input} (stepped : process.step codec now input = some after) :
    RaftNode.Allegiance input.announced? process.node after.node := by
  have moved := nodeStep_of_step stepped
  generalize after.node = node at moved ⊢
  cases moved with
  | requestVote args => exact .handleRequestVote _ now args
  | appendEntries args => exact .handleAppendEntries _ now args
  | installSnapshot args saved => exact .handleInstallSnapshot _ args saved
  | voteReply term votes majority reply => exact .handleVoteReply _ now term votes majority reply
  | appendReply peer term args reply => exact .handleAppendReply _ now peer term args reply
  | installReply peer term args reply => exact .handleInstallReply _ peer term args reply
  | becomeCandidate eligible => exact .forgets rfl rfl
  | heartbeat => exact .heartbeatTick _ now
  | configure branch locked behind =>
    -- moving `lastApplied` first changes nothing that matters here
    have configured : RaftNode.Allegiance none
        { process.node with lastApplied := process.node.lastApplied + 1 } _ :=
      .applyConfigEntry _ now (process.node.log.get (process.node.lastApplied + 1))
    cases configured with
    | keeps id leaderID currentTerm => exact .keeps id leaderID currentTerm
    | forgets id leaderID => exact .forgets id leaderID
    | wins id leaderID state => exact .wins id leaderID state
    | follows id heard => cases heard
  | takeSnapshot data saved holding =>
    rcases process.node.takeSnapshot_cases data saved with same | ⟨_, term, taken⟩
    · rw [same]
      exact .keeps rfl rfl rfl
    · rw [taken]
      exact .keeps rfl rfl rfl
  | submit op =>
    unfold RaftNode.submit
    split <;> exact .keeps rfl rfl rfl
  | addPeer rpcAddr =>
    rcases process.node.addPeer_cases now rpcAddr with ⟨_, same, _⟩ | ⟨_, _, _, _, added, _⟩
    · rw [same]
      exact .keeps rfl rfl rfl
    · rw [added]
      exact .keeps rfl rfl rfl
  | removePeer rpcAddr =>
    rcases process.node.removePeer_cases now rpcAddr with ⟨_, same, _⟩ | ⟨_, _, removed, _⟩
    · rw [same]
      exact .keeps rfl rfl rfl
    · rw [removed]
      exact .keeps rfl rfl rfl
  | _ => exact .keeps rfl rfl rfl

variable {ι : Type} {deployment : Deployment ι}

/-- The node of that name was elected in the term. -/
def LedBy (deployment : Deployment ι) (moves : List (Move (Cluster ι) (Event ι))) (term : Nat)
    (name : String) : Prop :=
  ∃ j, (deployment.config j).id = name ∧ ∃ move ∈ moves, Elects j term move

theorem LedBy.snoc {moves : List (Move (Cluster ι) (Event ι))} {term : Nat} {name : String}
    (led : LedBy deployment moves term name) (move : Move (Cluster ι) (Event ι)) :
    LedBy deployment (moves ++ [move]) term name := by
  obtain ⟨j, named, won, member, elects⟩ := led
  exact ⟨j, named, won, List.mem_append_left _ member, elects⟩

variable {cluster next : Cluster ι} {event : Event ι}
  {moves : List (Move (Cluster ι) (Event ι))}

/-- Whoever is taken for a leader, by a node or in a request, was elected. -/
structure Recognised (deployment : Deployment ι) (moves : List (Move (Cluster ι) (Event ι)))
    (cluster : Cluster ι) : Prop where
  id : ∀ i, (cluster.process i).node.id = (deployment.config i).id
  leads : ∀ i, (cluster.process i).node.state = .leader →
    LedBy deployment moves (cluster.process i).node.currentTerm (deployment.config i).id
  known : ∀ i, (cluster.process i).node.leaderID ≠ "" →
    LedBy deployment moves (cluster.process i).node.currentTerm (cluster.process i).node.leaderID
  append : ∀ rpc ∈ cluster.appends, LedBy deployment moves rpc.args.term rpc.args.leaderID
  install : ∀ rpc ∈ cluster.installs, LedBy deployment moves rpc.args.term rpc.args.leaderID

namespace Recognised

theorem initial : Recognised deployment [] deployment.initial where
  id i := rfl
  leads i leads := by cases leads
  known i known := absurd rfl known
  append rpc member := by cases member
  install rpc member := by cases member

theorem announced {input : Input} (recognised : Recognised deployment moves cluster)
    (carried : Deployment.Carried cluster input) {term : Nat} {name : String}
    (heard : input.announced? = some (term, name)) : LedBy deployment moves term name := by
  cases input with
  | appendEntries args =>
    obtain ⟨rpc, sending, rfl⟩ := carried.append args rfl
    cases heard
    exact recognised.append rpc sending
  | installSnapshot args saved =>
    obtain ⟨rpc, sending, rfl⟩ := carried.install args saved rfl
    cases heard
    exact recognised.install rpc sending
  | _ => cases heard

variable [DecidableEq ι]

section Turn

variable {i : ι} {input : Input}

theorem id_turn (recognised : Recognised deployment moves cluster)
    (turn : Turn deployment cluster event next i input) (j : ι) :
    (next.process j).node.id = (deployment.config j).id := by
  by_cases acts : j = i
  · subst acts
    rw [(Process.allegiance_step turn.stepped).id, recognised.id]
  · rw [turn.others j acts, recognised.id]

theorem leads_turn (recognised : Recognised deployment moves cluster)
    (turn : Turn deployment cluster event next i input) (j : ι)
    (leads : (next.process j).node.state = .leader) :
    LedBy deployment (moves ++ [⟨cluster, event, next⟩]) (next.process j).node.currentTerm
      (deployment.config j).id := by
  by_cases acts : j = i
  · subst acts
    cases Process.standing_step turn.stepped with
    | keeps state currentTerm =>
      rw [currentTerm]
      exact (recognised.leads j (state ▸ leads)).snoc _
    | yields state later => simp [state] at leads
    | stands state currentTerm => simp [state] at leads
    | wins stood state currentTerm =>
      exact ⟨j, rfl, ⟨cluster, event, next⟩, by simp, by simp [stood], leads, rfl⟩
  · rw [turn.others j acts] at leads ⊢
    exact (recognised.leads j leads).snoc _

theorem known_turn (recognised : Recognised deployment moves cluster)
    (turn : Turn deployment cluster event next i input) (j : ι)
    (known : (next.process j).node.leaderID ≠ "") :
    LedBy deployment (moves ++ [⟨cluster, event, next⟩]) (next.process j).node.currentTerm
      (next.process j).node.leaderID := by
  by_cases acts : j = i
  · subst acts
    cases Process.allegiance_step turn.stepped with
    | keeps id leaderID currentTerm =>
      rw [leaderID] at known ⊢
      rw [currentTerm]
      exact (recognised.known j known).snoc _
    | forgets id leaderID => exact absurd leaderID known
    | wins id leaderID state =>
      rw [leaderID, recognised.id]
      exact recognised.leads_turn turn j state
    | follows id heard => exact (recognised.announced turn.carried heard).snoc _
  · rw [turn.others j acts] at known ⊢
    exact (recognised.known j known).snoc _

/-- What a process sends names the process itself, in the term it leads. -/
theorem sender (recognised : Recognised deployment moves cluster)
    (turn : Turn deployment cluster event next i input) {out : Outgoing}
    (sending : out ∈ (cluster.process i).outgoing deployment.codec cluster.clock input) :
    LedBy deployment moves out.announced.1 out.announced.2 := by
  obtain ⟨leads, currentTerm, replicated⟩ := Process.outgoing_cases sending turn.stepped
  rw [RaftNode.announced_replicate replicated, currentTerm, recognised.id_turn turn]
  exact recognised.leads i leads

theorem turn (recognised : Recognised deployment moves cluster)
    (turn : Turn deployment cluster event next i input) :
    Recognised deployment (moves ++ [⟨cluster, event, next⟩]) next where
  id := recognised.id_turn turn
  leads := recognised.leads_turn turn
  known := recognised.known_turn turn
  append rpc member := by
    rcases turn.sent.append rpc member with ⟨old, sending, same⟩ | ⟨peer, term, sending⟩
    · exact same ▸ (recognised.append old sending).snoc _
    · exact (recognised.sender turn sending).snoc _
  install rpc member := by
    rcases turn.sent.install rpc member with ⟨old, sending, same⟩ | ⟨peer, term, sending⟩
    · exact same ▸ (recognised.install old sending).snoc _
    · exact (recognised.sender turn sending).snoc _

end Turn

/-- A process that is started again knows no leader. -/
theorem reboot (recognised : Recognised deployment moves cluster) (i : ι) (disk : Disk)
    (move : Move (Cluster ι) (Event ι)) :
    Recognised deployment (moves ++ [move]) (deployment.reboot cluster i disk) := by
  obtain ⟨term, data, booted⟩ := boot_eq (deployment.config i) disk
  have self : ((deployment.reboot cluster i disk).process i).node =
      boot (deployment.config i) disk := by
    simp [Deployment.reboot, Deployment.startProcess, Process.start]
  have others (j : ι) (other : j ≠ i) :
      (deployment.reboot cluster i disk).process j = cluster.process j :=
    Function.update_of_ne other _ _
  refine ⟨fun j => ?_, fun j leads => ?_, fun j known => ?_,
    fun rpc member => (recognised.append rpc member).snoc _,
    fun rpc member => (recognised.install rpc member).snoc _⟩
  all_goals by_cases acts : j = i
  · rw [acts, self, booted]
    rfl
  · rw [others j acts, recognised.id]
  · rw [acts, self, booted] at leads
    cases leads
  · rw [others j acts] at leads ⊢
    exact (recognised.leads j leads).snoc _
  · rw [acts, self, booted] at known
    exact absurd rfl known
  · rw [others j acts] at known ⊢
    exact (recognised.known j known).snoc _

theorem step (recognised : Recognised deployment moves cluster)
    (stepped : deployment.step cluster event = some next) :
    Recognised deployment (moves ++ [⟨cluster, event, next⟩]) next := by
  cases crashes : event.crashes with
  | true =>
    obtain ⟨i, disk, rfl, _⟩ := crash_cases crashes stepped
    exact recognised.reboot i disk _
  | false =>
    rcases turn_or_pause crashes stepped with pause | ⟨i, input, turn⟩
    · refine ⟨?_, ?_, ?_, ?_, ?_⟩
      · rw [pause.process]
        exact recognised.id
      · rw [pause.process]
        exact fun i leads => (recognised.leads i leads).snoc _
      · rw [pause.process]
        exact fun i known => (recognised.known i known).snoc _
      · rw [pause.appends]
        exact fun rpc member => (recognised.append rpc member).snoc _
      · rw [pause.installs]
        exact fun rpc member => (recognised.install rpc member).snoc _
    · exact recognised.turn turn

end Recognised

variable [DecidableEq ι]

/-- In every state a cluster reaches, whatever its members, snapshots and crashes: a
node whose `leaderID` is set names a node that was elected in its current term, and
every request under way names a node elected in the term of the request. -/
theorem leader_known {moves : List (Move (Cluster ι) (Event ι))}
    (trace : deployment.system.Trace (fun _ _ => True) deployment.initial moves cluster) :
    (∀ i, (cluster.process i).node.leaderID ≠ "" →
      ∃ j, (deployment.config j).id = (cluster.process i).node.leaderID ∧
        ∃ move ∈ moves, Elects j (cluster.process i).node.currentTerm move) ∧
    (∀ rpc ∈ cluster.appends, ∃ j, (deployment.config j).id = rpc.args.leaderID ∧
      ∃ move ∈ moves, Elects j rpc.args.term move) ∧
    ∀ rpc ∈ cluster.installs, ∃ j, (deployment.config j).id = rpc.args.leaderID ∧
      ∃ move ∈ moves, Elects j rpc.args.term move := by
  have recognised : Recognised deployment moves cluster :=
    trace.record (Recognised deployment) .initial
      fun moves cluster event next recognised _ stepped => recognised.step stepped
  exact ⟨recognised.known, recognised.append, recognised.install⟩

/-- Node 2 has received a heartbeat of node 1, which three nodes have elected. -/
theorem leader_known_bootstrap : ∃ moves cluster,
    bootstrap.system.Trace (fun _ _ => True) bootstrap.initial moves cluster ∧
      (cluster.process 1).node.leaderID = "node1" ∧
      ∃ j, (bootstrap.config j).id = "node1" ∧
        ∃ move ∈ moves, Elects j (cluster.process 1).node.currentTerm move := by
  obtain ⟨moves, cluster, trace, checked⟩ := bootstrap.system.exists_trace (fun _ _ => True)
    bootstrap.initial (firstElection ++ heartbeatHeard)
    (fun _ cluster => (cluster.process 1).node.leaderID = "node1") (by decide +kernel)
  have named : (cluster.process 1).node.leaderID = "node1" := by simpa using checked
  refine ⟨moves, cluster, trace, named, ?_⟩
  rw [← named]
  exact (leader_known trace).1 1 (by simp [named])

end RaftGo
