import RaftGo.KvStore.Runs

/-! The quorum check of a leader. `lastHeardFrom` is written when the leader is elected, when
a peer is added and with every reply to `AppendEntries`; a reply to `InstallSnapshot` leaves
no trace in it. -/

namespace RaftGo

namespace Raft.RaftNode

variable {node middle after : RaftNode} {now : Nat} {part : Part}

/-- A contact is only replaced by one at the present time. -/
def Renews (now : Nat) (node after : RaftNode) : Prop :=
  ∀ peer contact, node.lastHeardFrom peer = some contact →
    after.lastHeardFrom peer = some contact ∨ after.lastHeardFrom peer = some now

theorem lastHeardFrom_recordReply (node : RaftNode) (peer : String) (args : AppendEntriesArgs)
    (reply : AppendEntriesReply) :
    (node.recordReply now peer args reply).lastHeardFrom = node.lastHeardFrom.set peer now := by
  unfold recordReply
  dsimp only
  split
  · obtain ⟨nextIndex, matchIndex, advanced⟩ := advanceMatch_eq
      { node with lastHeardFrom := node.lastHeardFrom.set peer now } peer
      (args.prevLogIndex + args.entries.length)
    obtain ⟨commitIndex, signal, committed⟩ := maybeCommit_eq { node with
      lastHeardFrom := node.lastHeardFrom.set peer now
      nextIndex := nextIndex
      matchIndex := matchIndex }
    rw [advanced, committed]
  · rfl

namespace Renews

theorem of_same (same : after.lastHeardFrom = node.lastHeardFrom) : node.Renews now after := by
  intro peer contact heard
  rw [same]
  exact .inl heard

theorem refl (node : RaftNode) : Renews now node node := .of_same rfl

theorem of_set {addr : String} (written : after.lastHeardFrom = node.lastHeardFrom.set addr now) :
    Renews now node after := by
  intro peer contact heard
  rw [written, Table.set]
  by_cases same : peer = addr
  · rw [same, Function.update_self]
    exact .inr rfl
  · rw [Function.update_of_ne same]
    exact .inl heard

theorem trans (first : node.Renews now middle) (second : middle.Renews now after) :
    node.Renews now after := by
  intro peer contact heard
  rcases first peer contact heard with kept | renewed
  · exact second peer contact kept
  · exact .inr (or_self_iff.mp (second peer now renewed))

/-- A new leader gives every peer the benefit of the doubt. -/
theorem becomeLeader (node : RaftNode) : Renews now node (node.becomeLeader now) := by
  intro peer contact heard
  unfold RaftNode.becomeLeader
  dsimp only
  induction node.peers using List.reverseRecOn with
  | nil => exact .inl heard
  | append_singleton others last ih =>
    rw [List.foldl_append, List.foldl_cons, List.foldl_nil, Table.set]
    by_cases same : peer = last
    · rw [same, Function.update_self]
      exact .inr rfl
    · rw [Function.update_of_ne same]
      exact ih

theorem applyConfigEntry (node : RaftNode) (entry : LogEntry) :
    Renews now node (node.applyConfigEntry now entry) := by
  unfold RaftNode.applyConfigEntry leaveCluster
  dsimp only
  split
  · split
    · exact .refl node
    · split
      · exact .of_set rfl
      · exact .of_same rfl
  · split
    · split <;> exact .of_same rfl
    · exact .of_same rfl
  · exact .refl node

end Renews

theorem Change.renews (change : Change now node part after) : node.Renews now after := by
  cases change with
  | becomeLeader => exact .becomeLeader node
  | heard | trackPeer => exact .of_set rfl
  | maybeCommit =>
    obtain ⟨commitIndex, signal, committed⟩ := node.maybeCommit_eq
    exact .of_same (by rw [committed])
  | advanceCommit leaderCommit =>
    obtain ⟨commitIndex, signal, committed⟩ := node.advanceCommit_eq leaderCommit
    exact .of_same (by rw [committed])
  | _ => exact .of_same rfl

end Raft.RaftNode

namespace KvStore

open Raft Library

namespace Process

variable {codec : Codec} {now : Nat} {process after : Process} {input : Input}

theorem renews_step (stepped : process.step codec now input = some after) :
    RaftNode.Renews now process.node after.node := by
  by_cases loops : ∃ branch, input = .applyLoop branch
  · obtain ⟨branch, rfl⟩ := loops
    cases applyLoop_cases stepped with
    | configure locked behind config =>
      exact RaftNode.Renews.applyConfigEntry
        { process.node with lastApplied := process.node.lastApplied + 1 } _
    | _ => exact .of_same rfl
  · have elsewhere : ∀ branch, input ≠ .applyLoop branch := fun branch same => loops ⟨branch, same⟩
    exact (changes_step elsewhere stepped).keeps .refl .trans fun _ change => change.renews

end Process

/-- With this move the leader of the term processes a reply of the peer to an `AppendEntries`
of the term. -/
def hears (term : Nat) (peer : String) (move : Move Process (Nat × Input)) : Bool :=
  match move.event.2 with
  | .appendReply sender sent _ reply =>
    sender = peer ∧ sent = term ∧ reply.term ≤ term ∧
      move.before.node.state = .leader ∧ move.before.node.currentTerm = term
  | _ => false

theorem heard_of_hears {codec : Codec} {term : Nat} {peer : String} {process after : Process}
    {now : Nat} {input : Input} (heard : hears term peer ⟨process, (now, input), after⟩ = true)
    (stepped : process.step codec now input = some after) :
    after.node.lastHeardFrom peer = some now := by
  cases input with
  | appendReply sender sent args reply =>
    obtain ⟨rfl, rfl, current, leads, same⟩ := of_decide_eq_true heard
    dsimp only at leads same
    cases stepped
    have recorded : process.node.handleAppendReply now sender sent args reply =
        process.node.recordReply now sender args reply := by
      simp [RaftNode.handleAppendReply, leads, same, Nat.not_lt.mpr current]
    rw [Process.withNode, recorded, RaftNode.lastHeardFrom_recordReply, Table.set,
      Function.update_self]
  | _ => cases heard

/-- The times of a run do not go back. -/
def Clocked (moves : List (Move Process (Nat × Input))) : Prop :=
  moves.Pairwise fun first second => first.event.1 ≤ second.event.1

/-- A leader does not forget when it has heard from a peer. -/
theorem heard_since {codec : Codec} {start process : Process}
    {moves : List (Move Process (Nat × Input))}
    (trace : (Process.system codec).Trace (fun _ _ => True) start moves process)
    (clocked : Clocked moves) {term : Nat} {peer : String} {move : Move Process (Nat × Input)}
    (member : move ∈ moves) (heard : hears term peer move = true) :
    ∃ contact, process.node.lastHeardFrom peer = some contact ∧ move.event.1 ≤ contact := by
  refine trace.record (fun moves process => Clocked moves → move ∈ moves →
    ∃ contact, process.node.lastHeardFrom peer = some contact ∧ move.event.1 ≤ contact)
    (fun _ => nofun) ?_ clocked member
  intro moves process event next before _ stepped clocked member
  obtain ⟨earlier, _, ordered⟩ := List.pairwise_append.mp clocked
  rcases List.mem_append.mp member with old | last
  · obtain ⟨contact, known, since⟩ := before earlier old
    rcases Process.renews_step stepped peer contact known with kept | renewed
    · exact ⟨contact, kept, since⟩
    · exact ⟨event.1, renewed, ordered move old _ (List.mem_singleton_self _)⟩
  · cases List.mem_singleton.mp last
    exact ⟨event.1, heard_of_hears heard stepped, Nat.le_refl _⟩

/-- A leader keeps leading at a heartbeat tick if within the election timeout it has processed
replies to its `AppendEntries` from enough of its present peers to reach a majority with
itself. -/
theorem quorum_kept {codec : Codec} {start process : Process}
    {moves : List (Move Process (Nat × Input))}
    (trace : (Process.system codec).Trace (fun _ _ => True) start moves process)
    (clocked : Clocked moves) (leads : process.node.state = .leader) (now : Nat)
    (quorum : (process.node.peers.length + 1) / 2 ≤ (process.node.peers.filter fun peer =>
      moves.any fun move => hears process.node.currentTerm peer move &&
        now - move.event.1 < process.node.config.electionTimeoutMaxMs * millisecond).length) :
    (process.node.checkQuorum now).state = .leader := by
  have counted : process.node.majority ≤ process.node.heard now := by
    unfold RaftNode.majority RaftNode.heard
    rw [Nat.add_comm 1]
    refine Nat.add_le_add_right (quorum.trans ?_) 1
    rw [← List.countP_eq_length_filter, ← List.countP_eq_length_filter]
    refine List.countP_mono_left fun peer _ recent => ?_
    obtain ⟨move, member, heard⟩ := List.any_eq_true.mp recent
    obtain ⟨reply, within⟩ := Bool.and_eq_true_iff.mp heard
    obtain ⟨contact, known, since⟩ := heard_since trace clocked member reply
    rw [known]
    have within := of_decide_eq_true within
    exact decide_eq_true (by omega)
  rw [RaftNode.checkQuorum, if_neg (not_not.mpr leads), if_neg (Nat.not_lt.mpr counted)]
  exact leads

/-- `follower` is elected in term 1 and hears from `node2` 340 milliseconds later. -/
def electedAt0 (reply : Input) : List (Nat × Input) := [
  (0, .becomeCandidate),
  (0, .voteReply 1 1 2 { term := 1, voteGranted := true }),
  (340 * millisecond, reply)]

theorem quorum_kept_heartbeat :
    ∃ moves process, (Process.system Codec.sample).Trace (fun _ _ => True) (follower 100) moves
        process ∧
      (process.node.state = .leader ∧ process.node.heard (350 * millisecond) = 2) ∧
      (process.node.checkQuorum (350 * millisecond)).state = .leader := by
  obtain ⟨moves, process, trace, checked⟩ :=
    (Process.system Codec.sample).exists_trace (fun _ _ => True) (follower 100)
      (electedAt0 (.appendReply "node2:7001" 1 ⟨1, "node1", 0, 0, [], 0⟩ { term := 1 }))
      (fun moves process => (moves.Pairwise fun first second => first.event.1 ≤ second.event.1) ∧
        process.node.state = .leader ∧ process.node.heard (350 * millisecond) = 2 ∧
        (process.node.peers.length + 1) / 2 ≤ (process.node.peers.filter fun peer =>
          moves.any fun move => hears process.node.currentTerm peer move &&
            350 * millisecond - move.event.1 <
              process.node.config.electionTimeoutMaxMs * millisecond).length) (by decide +kernel)
  obtain ⟨clocked, leads, heard, quorum⟩ := of_decide_eq_true checked
  exact ⟨moves, process, trace, ⟨leads, heard⟩, quorum_kept trace clocked leads _ quorum⟩

/-- A snapshot of the first entry, which is of term 1. -/
def firstEntrySnapshot (term : Nat) (leaderID : String) : InstallSnapshotArgs where
  term := term
  leaderID := leaderID
  lastIncludedIndex := 1
  lastIncludedTerm := 1
  data := []

/-- `follower` has installed such a snapshot when it is elected in term 2. `node2` does not
have the entry; the next heartbeat brings it the snapshot, and the reply comes 330
milliseconds later. -/
def snapshotSentAt10 : List (Nat × Input) := [
  (0, .installSnapshot (firstEntrySnapshot 1 "node2") true),
  (0, .becomeCandidate),
  (0, .voteReply 2 1 2 { term := 2, voteGranted := true }),
  (0, .appendReply "node2:7001" 2 ⟨2, "node1", 1, 1, [], 0⟩ { term := 2, conflictIndex := 1 }),
  (10 * millisecond, .heartbeat),
  (340 * millisecond,
    .installReply "node2:7001" 2 (firstEntrySnapshot 2 "node1") { term := 2 })]

/-- If the reply is one to `InstallSnapshot`, the leader is deposed at the next tick, 10
milliseconds later. -/
theorem snapshot_reply_unheard :
    ∃ moves process, (Process.system Codec.sample).Trace (fun _ _ => True) (follower 100) moves
        process ∧
      (process.node.state = .leader ∧ process.node.currentTerm = 2 ∧
        process.node.peers.length = 2 ∧
        process.node.config.electionTimeoutMaxMs = 300) ∧
      (moves.any fun move => .install "node2:7001" 2 (firstEntrySnapshot 2 "node1") ∈
        move.before.outgoing Codec.sample move.event.1 move.event.2) = true ∧
      (moves.any fun move => move.before.node.state = .leader ∧
        move.before.node.currentTerm = 2 ∧ move.event = (340 * millisecond,
          .installReply "node2:7001" 2 (firstEntrySnapshot 2 "node1") { term := 2 })) = true ∧
      (process.node.checkQuorum (350 * millisecond)).state = .follower := by
  obtain ⟨moves, process, trace, checked⟩ :=
    (Process.system Codec.sample).exists_trace (fun _ _ => True) (follower 100) snapshotSentAt10
      (fun moves process => (process.node.state = .leader ∧ process.node.currentTerm = 2 ∧
        process.node.peers.length = 2 ∧
        process.node.config.electionTimeoutMaxMs = 300) ∧
        (moves.any fun move => .install "node2:7001" 2 (firstEntrySnapshot 2 "node1") ∈
          move.before.outgoing Codec.sample move.event.1 move.event.2) = true ∧
        (moves.any fun move => move.before.node.state = .leader ∧
          move.before.node.currentTerm = 2 ∧ move.event = (340 * millisecond,
            .installReply "node2:7001" 2 (firstEntrySnapshot 2 "node1") { term := 2 })) = true ∧
        (process.node.checkQuorum (350 * millisecond)).state = .follower) (by decide +kernel)
  exact ⟨moves, process, trace, of_decide_eq_true checked⟩

end KvStore

end RaftGo
