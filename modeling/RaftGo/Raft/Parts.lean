import Mathlib.Logic.Relation
import RaftGo.Raft.Cases

/-! What the handlers are made of. Each of them is a sequence of a few kinds of changes to the
node, so what every change of these kinds keeps, the handler keeps. -/

namespace RaftGo.Raft.RaftNode

theorem advanceCommit_eq (node : RaftNode) (leaderCommit : Nat) : ∃ commitIndex signal,
    node.advanceCommit leaderCommit =
      { node with commitIndex := commitIndex, commitNotifyC := signal } := by
  unfold advanceCommit
  split <;> exact ⟨_, _, rfl⟩

/-- What a change touches. -/
inductive Part where
  /-- Term, vote, state, leader, the timer, the counters and the state file. -/
  | role
  /-- The leader's tables, with the election. -/
  | election
  /-- `nextIndex`, `matchIndex` and `lastHeardFrom`. -/
  | tracking
  /-- `commitIndex` and the token for the apply loop. -/
  | commit
  | append
  | merge
  | peers
  | compaction
  | installation
deriving DecidableEq

variable {node middle after : RaftNode} {now : Nat} {part : Part} {parts more : List Part}

/-- A change of one kind, made at time `now`. -/
inductive Change (now : Nat) (node : RaftNode) : Part → RaftNode → Prop where
  | becomeFollower (term : Nat) : Change now node .role (node.becomeFollower term)
  | concede : Change now node .role { node with state := .follower }
  | grantVote (candidateID : String) : Change now node .role (node.grantVote candidateID)
  | becomeCandidate : Change now node .role node.becomeCandidate
  | contacted (leaderID : String) : Change now node .role (node.contacted now leaderID)
  | announced (leaderID : String) :
      Change now node .role (notifyHeartbeat { node with leaderID := leaderID })
  | resetTimer : Change now node .role { node with heartbeatC := false }
  | counted (received sent : Nat) :
      Change now node .role { node with heartbeatsRecv := received, heartbeatsSent := sent }
  | persist : Change now node .role node.persist
  | becomeLeader : Change now node .election (node.becomeLeader now)
  | progress (nextIndex matchIndex : Table Nat) :
      Change now node .tracking { node with nextIndex := nextIndex, matchIndex := matchIndex }
  | heard (peer : String) : Change now node .tracking
      { node with lastHeardFrom := node.lastHeardFrom.set peer now }
  | trackPeer (addr : String) (next : Nat) :
      Change now node .tracking (node.trackPeer now addr next)
  | maybeCommit : Change now node .commit node.maybeCommit
  | advanceCommit (leaderCommit : Nat) : Change now node .commit (node.advanceCommit leaderCommit)
  | append (entry : LogEntry) :
      Change now node .append { node with log := node.log.append [entry] }
  | merge (entries : List LogEntry) :
      Change now node .merge { node with log := node.log.mergeEntries entries }
  | addPeer (addr : String) : Change now node .peers { node with peers := node.peers ++ [addr] }
  | compact (term : Nat) (data : Bytes) (ahead : node.log.snapshotIndex < node.lastApplied) :
      Change now node .compaction (RaftNode.persist {
        node.write { node.disk with
          snapshot := some { index := node.lastApplied, term, data } } with
        snapshotData := data
        log := node.log.compactTo node.lastApplied term })
  | install (args : InstallSnapshotArgs)
      (ahead : node.log.snapshotIndex < args.lastIncludedIndex) :
      Change now node .installation ((node.write { node.disk with
        snapshot := some {
          index := args.lastIncludedIndex
          term := args.lastIncludedTerm
          data := args.data } }).installSnapshot args)

/-- A sequence of changes of the given kinds. -/
def Changes (now : Nat) (parts : List Part) : RaftNode → RaftNode → Prop :=
  Relation.ReflTransGen fun node after => ∃ part ∈ parts, Change now node part after

namespace Changes

theorem refl (node : RaftNode) : Changes now parts node node := Relation.ReflTransGen.refl

theorem trans (first : Changes now parts node middle) (second : Changes now parts middle after) :
    Changes now parts node after :=
  Relation.ReflTransGen.trans first second

theorem change (change : Change now node part after) (member : part ∈ parts) :
    Changes now parts node after :=
  .single ⟨part, member, change⟩

/-- The rule: what every change keeps, a sequence of them keeps. -/
theorem keeps {related : RaftNode → RaftNode → Prop} (changes : Changes now parts node after)
    (refl : ∀ node, related node node)
    (trans : ∀ {node middle after}, related node middle → related middle after →
      related node after)
    (each : ∀ {node after part}, part ∈ parts → Change now node part after → related node after) :
    related node after := by
  induction changes with
  | refl => exact refl node
  | tail _ last ih =>
    obtain ⟨part, member, change⟩ := last
    exact trans ih (each member change)

theorem mono (changes : Changes now parts node after) (wider : parts ⊆ more) :
    Changes now more node after :=
  changes.keeps refl trans fun member step => .change step (wider member)

theorem stepDown (node : RaftNode) (term : Nat) :
    Changes now [.role] node (node.stepDown term) := by
  rcases node.stepDown_cases term with ⟨_, same⟩ | ⟨_, stepped⟩
  · rw [same]
    exact .refl node
  · rw [stepped]
    exact .change (.becomeFollower term) (by simp)

theorem handleRequestVote (node : RaftNode) (args : RequestVoteArgs) :
    Changes now [.role] node (node.handleRequestVote now args).1 := by
  rcases node.handleRequestVote_cases now args with ⟨⟨term, stepped⟩, _⟩ | ⟨_, _, _, _, granted⟩
  · exact stepped ▸ stepDown node term
  · rw [granted]
    exact (stepDown node args.term).trans (.change (.grantVote args.candidateID) (by simp))

theorem handleVoteReply (node : RaftNode) (term votes majority : Nat) (reply : RequestVoteReply) :
    Changes now [.role, .election] node
      (node.handleVoteReply now term votes majority reply).1 := by
  rcases node.handleVoteReply_cases now term votes majority reply with
    ⟨⟨seen, stepped⟩, _⟩ | ⟨_, _, _, _, won⟩
  · rw [stepped]
    exact (stepDown node seen).mono (by simp)
  · rw [won]
    exact .change .becomeLeader (by simp)

theorem advanceMatch (node : RaftNode) (peer : String) (newMatch : Nat) :
    Changes now [.tracking] node (node.advanceMatch peer newMatch) := by
  obtain ⟨nextIndex, matchIndex, advanced⟩ := node.advanceMatch_eq peer newMatch
  rw [advanced]
  exact .change (.progress nextIndex matchIndex) (by simp)

theorem handleAppendReply (node : RaftNode) (peer : String) (term : Nat)
    (args : AppendEntriesArgs) (reply : AppendEntriesReply) :
    Changes now [.role, .tracking, .commit] node
      (node.handleAppendReply now peer term args reply) := by
  rcases node.handleAppendReply_cases now peer term args reply with
    ⟨seen, stepped⟩ | ⟨_, _, recorded⟩
  · rw [stepped]
    exact (stepDown node seen).mono (by simp)
  · rw [recorded]
    unfold recordReply
    dsimp only
    refine (change (.heard peer) (by simp)).trans ?_
    split
    · exact ((advanceMatch _ peer _).mono (by simp)).trans (.change .maybeCommit (by simp))
    · exact .change (.progress _ _) (by simp)

theorem handleInstallReply (node : RaftNode) (peer : String) (term : Nat)
    (args : InstallSnapshotArgs) (reply : InstallSnapshotReply) :
    Changes now [.role, .tracking] node (node.handleInstallReply peer term args reply) := by
  rcases node.handleInstallReply_cases peer term args reply with
    ⟨seen, stepped⟩ | ⟨_, _, advanced⟩
  · rw [stepped]
    exact (stepDown node seen).mono (by simp)
  · rw [advanced]
    exact (advanceMatch node peer _).mono (by simp)

theorem acceptEntries (node : RaftNode) (args : AppendEntriesArgs) :
    Changes now [.role, .merge, .commit] node (node.acceptEntries args) := by
  refine (change (.merge args.entries) (by simp)).trans ?_
  refine (change (.advanceCommit args.leaderCommit) (by simp)).trans ?_
  refine (change .persist (by simp)).trans ?_
  unfold RaftNode.acceptEntries
  dsimp only
  split
  · exact .change (.counted _ _) (by simp)
  · exact .refl _

theorem handleAppendEntries (node : RaftNode) (args : AppendEntriesArgs) :
    Changes now [.role, .merge, .commit] node (node.handleAppendEntries now args).1 := by
  have observed : Changes now [.role, .merge, .commit] node
      ((node.observeLeader args.term).contacted now args.leaderID) := by
    refine trans ?_ (.change (.contacted args.leaderID) (by simp))
    rcases node.observeLeader_cases args.term with stepped | ⟨_, _, conceded⟩
    · rw [stepped]
      exact (stepDown node args.term).mono (by simp)
    · rw [conceded]
      exact .change .concede (by simp)
  rcases node.handleAppendEntries_cases now args with ⟨_, stale, _⟩ |
    ⟨_, ⟨refused, _⟩ | ⟨_, accepted⟩⟩
  · rw [stale]
    exact .refl node
  · rw [refused]
    exact observed
  · rw [accepted]
    exact observed.trans (acceptEntries _ args)

theorem relieved {args : InstallSnapshotArgs} (relieved : Relieved node args after) :
    Changes now [.role] node after := by
  cases relieved with
  | stale => exact stepDown node args.term
  | current => exact (stepDown node args.term).trans (.change (.announced args.leaderID) (by simp))

theorem handleInstallSnapshot (node : RaftNode) (args : InstallSnapshotArgs) (saved : Bool) :
    Changes now [.role, .installation] node (node.handleInstallSnapshot args saved).1 := by
  obtain ⟨reached, before, outcome⟩ := node.handleInstallSnapshot_cases args saved
  have reaches : Changes now [.role, .installation] node reached :=
    (relieved before).mono (by simp)
  rcases outcome with same | ⟨ahead, installed⟩
  · exact same.symm ▸ reaches
  · rw [installed]
    exact reaches.trans (.change (.install args (before.log_eq ▸ ahead)) (by simp))

theorem heartbeatTick (node : RaftNode) : Changes now [.role] node (node.heartbeatTick now).1 := by
  unfold RaftNode.heartbeatTick checkQuorum
  split
  · refine trans ?_ (.change (.counted _ _) (by simp))
    split
    · exact .refl node
    · split
      · exact .change (.becomeFollower _) (by simp)
      · exact .refl node
  · exact .refl node

theorem takeSnapshot (node : RaftNode) (data : Bytes) (saved : Bool) :
    Changes now [.compaction] node (node.takeSnapshot data saved) := by
  rcases node.takeSnapshot_cases data saved with same | ⟨ahead, term, built⟩
  · rw [same]
    exact .refl node
  · rw [built]
    exact .change (.compact term data ahead) (by simp)

theorem submit (node : RaftNode) (command : Bytes) :
    Changes now [.role, .append] node (node.submit command).1 := by
  unfold RaftNode.submit
  split
  · exact .refl node
  · exact (change (.append _) (by simp)).trans (.change .persist (by simp))

theorem addPeer (node : RaftNode) (rpcAddr : String) :
    Changes now [.role, .append, .peers, .tracking] node
      (node.addPeer now rpcAddr).1 := by
  rcases node.addPeer_cases now rpcAddr with ⟨_, same, _⟩ | ⟨_, _, _, _, added, _⟩
  · rw [same]
    exact .refl node
  · rw [added]
    refine (change (.append (node.configEntry .add rpcAddr)) (by simp)).trans ?_
    refine (change .persist (by simp)).trans ?_
    refine (change (.addPeer rpcAddr) (by simp)).trans ?_
    exact .change (.trackPeer rpcAddr _) (by simp)

theorem removePeer (node : RaftNode) (rpcAddr : String) :
    Changes now [.role, .append] node (node.removePeer now rpcAddr).1 := by
  rcases node.removePeer_cases now rpcAddr with ⟨_, same, _⟩ | ⟨_, _, removed, _⟩
  · rw [same]
    exact .refl node
  · rw [removed]
    exact (change (.append _) (by simp)).trans (.change .persist (by simp))

end Changes

theorem Change.log_eq (change : Change now node part after)
    (other : part ∉ [.append, .merge, .compaction, .installation]) : after.log = node.log := by
  cases change with
  | maybeCommit =>
    obtain ⟨commitIndex, signal, committed⟩ := node.maybeCommit_eq
    rw [committed]
  | advanceCommit leaderCommit =>
    obtain ⟨commitIndex, signal, committed⟩ := node.advanceCommit_eq leaderCommit
    rw [committed]
  | append | merge | compact | install => simp at other
  | _ => rfl

theorem Changes.log_eq (changes : Changes now parts node after)
    (others : ∀ part ∈ parts, part ∉ [.append, .merge, .compaction, .installation]) :
    after.log = node.log := by
  induction changes with
  | refl => rfl
  | tail _ last ih =>
    obtain ⟨part, member, change⟩ := last
    exact (change.log_eq (others part member)).trans ih

end RaftGo.Raft.RaftNode
