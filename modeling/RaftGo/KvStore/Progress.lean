import RaftGo.KvStore.Runs
import RaftGo.Raft.Terms

/-! What an input can do to the log of a process, to `commitIndex` and to
`lastApplied`, and to its role. Every bound on these indices follows from this list
of cases. -/

namespace RaftGo

namespace Raft.RaftNode

variable {node middle after : RaftNode} {now : Nat} {part : Part} {parts : List Part}

/-- The log and the indices into it stay. -/
structure Rests (node after : RaftNode) : Prop where
  log : after.log = node.log
  commitIndex : after.commitIndex = node.commitIndex
  lastApplied : after.lastApplied = node.lastApplied

theorem Rests.refl (node : RaftNode) : Rests node node := ⟨rfl, rfl, rfl⟩

theorem Rests.trans (first : Rests node middle) (second : Rests middle after) :
    Rests node after where
  log := second.log.trans first.log
  commitIndex := second.commitIndex.trans first.commitIndex
  lastApplied := second.lastApplied.trans first.lastApplied

theorem Change.rests (change : Change now node part after)
    (quiet : part ∈ [.role, .election, .tracking]) : Rests node after := by
  cases change with
  | maybeCommit | advanceCommit | append | merge | addPeer | compact | install => simp at quiet
  | _ => exact ⟨rfl, rfl, rfl⟩

theorem Changes.rests (changes : Changes now parts node after)
    (quiet : parts ⊆ [.role, .election, .tracking]) : Rests node after :=
  changes.keeps .refl .trans fun member change => change.rests (quiet member)

theorem rests_stepDown (node : RaftNode) (term : Nat) : Rests node (node.stepDown term) := by
  have changes : Changes 0 [.role] node (node.stepDown term) := .stepDown node term
  exact changes.rests (by simp)

theorem rests_observeLeader (node : RaftNode) (term : Nat) :
    Rests node (node.observeLeader term) := by
  rcases node.observeLeader_cases term with same | ⟨_, _, conceded⟩
  · rw [same]
    exact node.rests_stepDown term
  · rw [conceded]
    exact ⟨rfl, rfl, rfl⟩

theorem Relieved.rests {args : InstallSnapshotArgs} (relieved : Relieved node args after) :
    Rests node after := by
  have changes : Changes 0 [.role] node after := .relieved relieved
  exact changes.rests (by simp)

theorem rests_handleRequestVote (node : RaftNode) (now : Nat) (args : RequestVoteArgs) :
    Rests node (node.handleRequestVote now args).1 :=
  (Changes.handleRequestVote node args).rests (by simp)

end Raft.RaftNode

namespace KvStore

open Raft

/-- How the log and the indices into it move with an input. -/
inductive Progress (process : Process) (input : Input) (after : Process) : Prop where
  | rests (same : process.node.Rests after.node)
  /-- `Submit`, `AddPeer` or `RemovePeer` -/
  | appends (entry : LogEntry) (leads : process.node.state = .leader)
      (index : entry.index = process.node.log.lastIndex + 1)
      (term : entry.term = process.node.currentTerm)
      (log : after.node.log = process.node.log.append [entry])
      (commitIndex : after.node.commitIndex = process.node.commitIndex)
      (lastApplied : after.node.lastApplied = process.node.lastApplied)
  | merges (args : AppendEntriesArgs) (request : input = .appendEntries args)
      (current : process.node.currentTerm ≤ args.term)
      (agrees : process.node.prevConflict args = none)
      (log : after.node.log = process.node.log.mergeEntries args.entries)
      (commitIndex : after.node.commitIndex =
        if args.leaderCommit > process.node.commitIndex
        then min args.leaderCommit after.node.log.lastIndex else process.node.commitIndex)
      (lastApplied : after.node.lastApplied = process.node.lastApplied)
  /-- `maybeCommit` -/
  | commits (leads : process.node.state = .leader) (log : after.node.log = process.node.log)
      (ahead : process.node.commitIndex < after.node.commitIndex)
      (own : (process.node.log.get after.node.commitIndex).term = process.node.currentTerm)
      (lastApplied : after.node.lastApplied = process.node.lastApplied)
  /-- `TakeSnapshot` -/
  | compacts (term : Nat) (ahead : process.node.log.snapshotIndex < process.node.lastApplied)
      (log : after.node.log = process.node.log.compactTo process.node.lastApplied term)
      (commitIndex : after.node.commitIndex = process.node.commitIndex)
      (lastApplied : after.node.lastApplied = process.node.lastApplied)
  | installs (args : InstallSnapshotArgs) (saved : Bool)
      (request : input = .installSnapshot args saved)
      (ahead : process.node.log.snapshotIndex < args.lastIncludedIndex)
      (log : after.node.log =
        process.node.log.compactTo args.lastIncludedIndex args.lastIncludedTerm)
      (commitIndex : after.node.commitIndex =
        max process.node.commitIndex args.lastIncludedIndex)
      (lastApplied : after.node.lastApplied =
        max process.node.lastApplied args.lastIncludedIndex)
  /-- The apply loop takes an entry. -/
  | takes (behind : process.node.lastApplied < process.node.commitIndex)
      (taken : process.taken? input =
        some (process.node.log.get (process.node.lastApplied + 1)))
      (log : after.node.log = process.node.log)
      (commitIndex : after.node.commitIndex = process.node.commitIndex)
      (lastApplied : after.node.lastApplied = process.node.lastApplied + 1)

namespace Process

variable {codec : Codec} {now : Nat} {process after : Process} {input : Input}

theorem progress_appendReply {peer : String} {term : Nat} {args : AppendEntriesArgs}
    {reply : AppendEntriesReply} : Progress process (.appendReply peer term args reply)
      (process.withNode (process.node.handleAppendReply now peer term args reply)) := by
  rcases process.node.handleAppendReply_cases now peer term args reply with
    ⟨seen, stepped⟩ | ⟨leads, _, recorded⟩
  · rw [stepped]
    exact .rests (process.node.rests_stepDown seen)
  · rw [recorded]
    unfold RaftNode.recordReply
    dsimp only
    split
    · obtain ⟨nextIndex, matchIndex, advanced⟩ := RaftNode.advanceMatch_eq
        { process.node with lastHeardFrom := process.node.lastHeardFrom.set peer now } peer
        (args.prevLogIndex + args.entries.length)
      rw [advanced]
      unfold RaftNode.maybeCommit
      split
      · rename_i quorum
        exact .commits leads rfl quorum.1 quorum.2 rfl
      · exact .rests ⟨rfl, rfl, rfl⟩
    · exact .rests ⟨rfl, rfl, rfl⟩

theorem progress_appendEntries {args : AppendEntriesArgs} : Progress process (.appendEntries args)
    (process.withNode (process.node.handleAppendEntries now args).1) := by
  have observed := process.node.rests_observeLeader args.term
  rcases process.node.handleAppendEntries_cases now args with ⟨_, same, _⟩ |
    ⟨reached, ⟨refused, _⟩ | ⟨agrees, accepted⟩⟩
  · rw [same]
    exact .rests (.refl _)
  · rw [refused]
    exact .rests (observed.trans ⟨rfl, rfl, rfl⟩)
  · have current : process.node.currentTerm ≤ args.term := by
      rw [← reached]
      rcases process.node.observeLeader_cases args.term with same | ⟨_, _, conceded⟩
      · rw [same]
        rcases process.node.stepDown_cases args.term with ⟨_, stays⟩ | ⟨later, steps⟩
        · rw [stays]
        · rw [steps]
          exact Nat.le_of_lt later
      · rw [conceded]
    rw [RaftNode.prevConflict_observeLeader] at agrees
    obtain ⟨signal, received, built⟩ :=
      ((process.node.observeLeader args.term).contacted now args.leaderID).acceptEntries_eq args
    rw [accepted, built]
    refine .merges args rfl current agrees ?_ ?_ observed.lastApplied
    · exact congrArg (Log.mergeEntries · args.entries) observed.log
    · exact congrArg (fun commit => if args.leaderCommit > commit then min args.leaderCommit
        ((process.node.observeLeader args.term).log.mergeEntries args.entries).lastIndex
        else commit) observed.commitIndex

theorem progress_installSnapshot {args : InstallSnapshotArgs} {saved : Bool} :
    Progress process (.installSnapshot args saved)
      (process.withNode (process.node.handleInstallSnapshot args saved).1) := by
  obtain ⟨relieved, before, outcome⟩ := process.node.handleInstallSnapshot_cases args saved
  have rests := before.rests
  rcases outcome with same | ⟨ahead, installed⟩
  · rw [same]
    exact .rests rests
  · rw [installed]
    refine .installs args saved rfl ahead ?_ ?_ ?_
    · exact congrArg (Log.compactTo · args.lastIncludedIndex args.lastIncludedTerm) rests.log
    · exact congrArg (max · args.lastIncludedIndex) rests.commitIndex
    · exact congrArg (max · args.lastIncludedIndex) rests.lastApplied

theorem progress_call {op : Op} : Progress process (.call op) (process.startCall codec op) := by
  rcases process.startCall_cases codec op with ⟨_, refused⟩ | ⟨leads, accepted⟩
  · rw [refused]
    exact .rests (.refl _)
  · rw [accepted]
    exact .appends (process.nextEntry (codec.encodeOp op)) leads rfl rfl rfl rfl rfl

theorem progress_addPeer {rpcAddr : String} : Progress process (.addPeer rpcAddr)
    (process.withNode (process.node.addPeer now rpcAddr).1) := by
  rcases process.node.addPeer_cases now rpcAddr with ⟨_, same, _⟩ | ⟨_, leads, _, _, added, _⟩
  · rw [same]
    exact .rests (.refl _)
  · rw [added]
    exact .appends (process.node.configEntry .add rpcAddr) leads rfl rfl rfl rfl rfl

theorem progress_removePeer {rpcAddr : String} : Progress process (.removePeer rpcAddr)
    (process.withNode (process.node.removePeer now rpcAddr).1) := by
  rcases process.node.removePeer_cases now rpcAddr with ⟨_, same, _⟩ | ⟨_, leads, removed, _⟩
  · rw [same]
    exact .rests (.refl _)
  · rw [removed]
    exact .appends (process.node.configEntry .remove rpcAddr) leads rfl rfl rfl rfl rfl

theorem progress_applyLoop {branch : Branch} (moved : ApplyTransition codec now process after) :
    Progress process (.applyLoop branch) after := by
  cases moved with
  | configure locked behind config =>
    obtain ⟨state, leaderID, nextIndex, matchIndex, lastHeardFrom, _, applied⟩ :=
      RaftNode.applyConfigEntry_eq { process.node with lastApplied := process.node.lastApplied + 1 }
        now (process.node.log.get (process.node.lastApplied + 1))
    rw [applied]
    exact .takes behind (taken?_behind branch locked behind) rfl rfl rfl
  | take locked behind command =>
    exact .takes behind (taken?_behind branch locked behind) rfl rfl rfl
  | _ => exact .rests ⟨rfl, rfl, rfl⟩

theorem progress_readApplyCh {saved : Bool} (moved : ReadTransition codec process saved after) :
    Progress process (.readApplyCh saved) after := by
  cases moved with
  | take data holding =>
    rcases process.node.takeSnapshot_cases data saved with same | ⟨ahead, term, taken⟩
    · rw [same]
      exact .rests (.refl _)
    · rw [taken]
      exact .compacts term ahead rfl rfl rfl
  | routeEntry index term command result reader holding next =>
    obtain ⟨pending, calls, routed⟩ := routeEntry_eq
      { process with applied := process.applied + 1 } index term result
    rw [routed]
    exact .rests (.refl _)
  | _ => exact .rests (.refl _)

theorem progress_step (stepped : process.step codec now input = some after) :
    Progress process input after := by
  cases input with
  | appendEntries args =>
    cases stepped
    exact progress_appendEntries
  | installSnapshot args saved =>
    cases stepped
    exact progress_installSnapshot
  | appendReply peer term args reply =>
    cases stepped
    exact progress_appendReply
  | applyLoop branch => exact progress_applyLoop (applyLoop_cases stepped)
  | readApplyCh saved => exact progress_readApplyCh (readApplyCh_cases stepped)
  | call op =>
    cases stepped
    exact progress_call
  | addPeer rpcAddr =>
    cases stepped
    exact progress_addPeer
  | removePeer rpcAddr =>
    cases stepped
    exact progress_removePeer
  | _ => exact .rests ((changes_step (by simp) stepped).rests (by simp [Input.parts]))

theorem standing_step (stepped : process.step codec now input = some after) :
    process.node.Standing after.node := by
  have moved := nodeStep_of_step stepped
  generalize after.node = node at moved ⊢
  cases moved with
  | requestVote args => exact RaftNode.standing_handleRequestVote now args
  | appendEntries args => exact (RaftNode.advances_handleAppendEntries now args).standing
  | installSnapshot args saved =>
    exact (RaftNode.advances_handleInstallSnapshot args saved).standing
  | voteReply term votes majority reply =>
    exact RaftNode.standing_handleVoteReply now term votes majority reply
  | appendReply peer term args reply =>
    exact (RaftNode.advances_handleAppendReply now peer term args reply).standing
  | installReply peer term args reply =>
    exact (RaftNode.advances_handleInstallReply peer term args reply).standing
  | becomeCandidate eligible => exact .stands rfl rfl
  | heartbeat => exact RaftNode.standing_heartbeatTick now
  | configure branch locked behind =>
    obtain ⟨state, leaderID, nextIndex, matchIndex, lastHeardFrom, role, applied⟩ :=
      RaftNode.applyConfigEntry_eq
        { process.node with lastApplied := process.node.lastApplied + 1 } now
        (process.node.log.get (process.node.lastApplied + 1))
    rw [applied]
    rcases role with same | follower
    · exact .keeps same rfl
    · exact .yields follower (Nat.le_refl _)
  | takeSnapshot data saved holding =>
    exact (RaftNode.keepsVote_takeSnapshot data saved).advances.standing
  | submit op => exact (RaftNode.keepsVote_submit _).advances.standing
  | addPeer rpcAddr =>
    rcases process.node.addPeer_cases now rpcAddr with ⟨_, same, _⟩ | ⟨_, _, _, _, added, _⟩
    · rw [same]
      exact .keeps rfl rfl
    · rw [added]
      exact .keeps rfl rfl
  | removePeer rpcAddr =>
    rcases process.node.removePeer_cases now rpcAddr with ⟨_, same, _⟩ | ⟨_, _, removed, _⟩
    · rw [same]
      exact .keeps rfl rfl
    · rw [removed]
      exact .keeps rfl rfl
  | _ => exact .keeps rfl rfl

/-- A process sends while it leads, and what it sends is read off its log after the
input; it may have stepped down meanwhile. -/
theorem outgoing_cases {out : Outgoing} (sending : out ∈ process.outgoing codec now input)
    (stepped : process.step codec now input = some after) :
    process.node.state = .leader ∧ after.node.currentTerm = process.node.currentTerm ∧
      out ∈ after.node.replicate := by
  cases input with
  | heartbeat =>
    cases stepped
    simp only [outgoing, withNode, RaftNode.heartbeatTick] at sending ⊢
    split at sending
    · rename_i leads
      rw [if_pos leads]
      refine ⟨leads, ?_, sending⟩
      unfold RaftNode.sendHeartbeats RaftNode.checkQuorum
      split
      · rfl
      · split <;> rfl
    · simp at sending
  | call op =>
    cases stepped
    rw [(startCall_node process codec op).1]
    simp only [outgoing, RaftNode.submit] at sending ⊢
    split at sending
    · simp at sending
    · rename_i leads
      rw [if_neg leads]
      exact ⟨not_not.mp leads, rfl, sending⟩
  | addPeer rpcAddr =>
    cases stepped
    simp only [outgoing, withNode] at sending ⊢
    rcases process.node.addPeer_cases now rpcAddr with ⟨_, _, silent⟩ | ⟨_, leads, _, _, added, sent⟩
    · simp [silent] at sending
    · rw [sent] at sending
      exact ⟨leads, by rw [added]; rfl, sending⟩
  | removePeer rpcAddr =>
    cases stepped
    simp only [outgoing, withNode] at sending ⊢
    rcases process.node.removePeer_cases now rpcAddr with ⟨_, _, silent⟩ | ⟨_, leads, removed, sent⟩
    · simp [silent] at sending
    · rw [sent] at sending
      exact ⟨leads, by rw [removed]; rfl, sending⟩
  | _ => simp [outgoing] at sending

end Process

end KvStore

end RaftGo
