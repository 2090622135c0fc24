import RaftGo.Raft.Livelock
import RaftGo.Raft.Recovery

/-! The two nodes of the circle of `Raft.Livelock` as they go on by themselves: what each of
the handlers makes of the node that may lead, and of the one that keeps refusing it. -/

namespace RaftGo.Raft

variable {log other : Log} {index : Nat}

namespace Log

theorem lastIndexForTerm_congr {after : Log} {term bound : Nat}
    (same : ∀ index, 0 < index → index ≤ bound → after.get index = log.get index) :
    after.lastIndexForTerm term bound = log.lastIndexForTerm term bound := by
  induction bound with
  | zero => rfl
  | succ bound ih =>
    rw [lastIndexForTerm, lastIndexForTerm, same _ (Nat.succ_pos _) (Nat.le_refl _),
      ih fun index positive below => same index positive (Nat.le_succ_of_le below)]

theorem lastIndexForTerm_append (whole : log.snapshotIndex = 0) {entry : LogEntry} {term : Nat}
    (differs : term ≠ entry.term) :
    (log.append [entry]).lastIndexForTerm term (log.append [entry]).lastIndex =
      log.lastIndexForTerm term log.lastIndex := by
  have last : (log.append [entry]).get (log.lastIndex + 1) = entry := by
    rw [get_of_gt _ (by rw [snapshotIndex_append]; omega), lastIndex_eq]
    simp [whole]
  have count : (log.append [entry]).lastIndex = log.lastIndex + 1 := lastIndex_append ..
  rw [count, lastIndexForTerm, last, if_neg (Ne.symm differs)]
  exact lastIndexForTerm_congr fun index positive inside =>
    log.get_append [entry] (by omega) inside

theorem lastTerm_eq_get (behind : log.snapshotIndex < log.lastIndex) :
    log.lastTerm = (log.get log.lastIndex).term := by
  rw [lastTerm, get_of_gt _ behind, lastIndex_eq, List.getLast?_eq_getElem?]
  have present : log.rest.length - 1 < log.rest.length := by
    rw [lastIndex_eq] at behind
    omega
  have position : log.snapshotIndex + log.rest.length - log.snapshotIndex - 1 =
      log.rest.length - 1 := by omega
  rw [position, List.getElem?_eq_getElem present]
  rfl

/-- Entries of terms the follower does not know change nothing. -/
theorem Misleads.append (misleads : log.Misleads other) (whole : log.snapshotIndex = 0)
    (entry : LogEntry) (fresh : ∀ index, other.snapshotIndex < index → index ≤ other.lastIndex →
      (other.get index).term ≠ entry.term) :
    (log.append [entry]).Misleads other ∧
      (log.append [entry]).lastShared other = log.lastShared other := by
  have kept : ∀ index, other.snapshotIndex < index → index ≤ other.lastIndex →
      (log.append [entry]).lastIndexForTerm (other.get index).term (log.append [entry]).lastIndex =
        log.lastIndexForTerm (other.get index).term log.lastIndex :=
    fun index behind inside => lastIndexForTerm_append whole (fresh index behind inside)
  have shared : (log.append [entry]).lastShared other = log.lastShared other :=
    kept _ (Nat.lt_succ_self _) misleads.behind
  refine ⟨⟨misleads.behind, ?_, ?_, ?_, misleads.stamped, ?_, ?_⟩, shared⟩
  · rw [shared, snapshotIndex_append]
    exact misleads.reached
  · rw [shared]
    exact misleads.shared
  · rw [shared]
    exact misleads.early
  · intro index behind inside same
    rcases Nat.lt_or_ge log.lastIndex index with beyond | held
    · rcases Nat.lt_or_ge (log.lastIndex + 1) index with outside | last
      · rw [get_of_lastIndex_lt _ (by rw [lastIndex_append]; exact outside)] at same
        exact misleads.stamped index behind inside same.symm
      · have here : index = log.lastIndex + 1 := by omega
        subst here
        rw [get_of_gt _ (by rw [snapshotIndex_append]; omega), lastIndex_eq] at same
        refine fresh _ behind inside ?_
        rw [lastIndex_eq, ← same]
        simp [whole]
    · rw [log.get_append [entry] (by omega) held] at same
      exact misleads.differs index behind inside same
  · intro index behind inside
    rw [kept index behind inside, shared]
    exact misleads.hint index behind inside

end Log

namespace RaftNode

variable {node after : RaftNode} {peer : String}

/-- The node keeps its log and what it has applied. It may have seen a later term, but
leads no new one. -/
structure Defers (node after : RaftNode) : Prop where
  log : after.log = node.log
  commitIndex : after.commitIndex = node.commitIndex
  lastApplied : after.lastApplied = node.lastApplied
  nextIndex : after.nextIndex = node.nextIndex
  term : node.currentTerm ≤ after.currentTerm
  leads : after.state = .leader → node.state = .leader

namespace Defers

theorem refl (node : RaftNode) : node.Defers node :=
  ⟨rfl, rfl, rfl, rfl, Nat.le_refl _, fun leads => leads⟩

theorem becomeFollower (node : RaftNode) {term : Nat} (later : node.currentTerm ≤ term) :
    node.Defers (node.becomeFollower term) :=
  ⟨rfl, rfl, rfl, rfl, later, fun leads => by cases leads⟩

theorem stepDown (node : RaftNode) (term : Nat) : node.Defers (node.stepDown term) := by
  rcases node.stepDown_cases term with ⟨_, same⟩ | ⟨later, stepped⟩
  · rw [same]
    exact refl node
  · rw [stepped]
    exact becomeFollower node (Nat.le_of_lt later)

theorem becomeCandidate (node : RaftNode) : node.Defers node.becomeCandidate :=
  ⟨rfl, rfl, rfl, rfl, Nat.le_succ _, fun leads => by cases leads⟩

theorem handleRequestVote (node : RaftNode) (now : Nat) (args : RequestVoteArgs) :
    node.Defers (node.handleRequestVote now args).1 := by
  rcases node.handleRequestVote_cases now args with ⟨⟨term, same⟩, _⟩ | ⟨_, _, _, _, granted⟩
  · rw [same]
    exact stepDown node term
  · rw [granted]
    exact { stepDown node args.term with }

theorem observeLeader (node : RaftNode) (term : Nat) : node.Defers (node.observeLeader term) := by
  rcases node.observeLeader_cases term with same | ⟨_, _, conceded⟩
  · rw [same]
    exact stepDown node term
  · rw [conceded]
    exact ⟨rfl, rfl, rfl, rfl, Nat.le_refl _, fun leads => by cases leads⟩

theorem handleAppendEntries {args : AppendEntriesArgs} {conflict : Nat × Nat}
    (refused : node.prevConflict args = some conflict) (now : Nat) :
    node.Defers (node.handleAppendEntries now args).1 := by
  rcases node.handleAppendEntries_cases now args with ⟨_, same, _⟩ |
    ⟨_, ⟨same, _⟩ | ⟨agrees, _⟩⟩
  · rw [same]
    exact refl node
  · rw [same]
    exact { observeLeader node args.term with }
  · rw [node.prevConflict_observeLeader args] at agrees
    cases agrees.symm.trans refused

theorem heartbeatTick (node : RaftNode) (now : Nat) : node.Defers (node.heartbeatTick now).1 := by
  unfold RaftNode.heartbeatTick
  split
  · rename_i leads
    unfold checkQuorum
    rw [if_neg (not_not.mpr leads)]
    split
    · exact { becomeFollower node (Nat.le_refl _) with }
    · exact { refl node with }
  · exact refl node

theorem astray (defers : node.Defers after) (astray : node.Astray other peer) :
    after.Astray other peer := by
  rw [Astray, defers.nextIndex, defers.log]
  exact astray

end Defers

/-- A node that leads, if at all, without getting an entry to the peer whose log is
`other`. -/
structure Stray (other : Log) (peer : String) (node : RaftNode) : Prop where
  misleads : node.log.Misleads other
  whole : node.log.snapshotIndex = 0
  applied : node.lastApplied = 0
  uncommitted : node.commitIndex = 0
  longer : other.snapshotIndex < node.log.lastIndex
  newer : other.lastTerm < node.log.lastTerm
  later : ∀ index, other.snapshotIndex < index → index ≤ other.lastIndex →
    (other.get index).term < node.currentTerm
  astray : node.state = .leader → node.Astray other peer

namespace Stray

theorem defers (stray : node.Stray other peer) (defers : node.Defers after) :
    after.Stray other peer where
  misleads := defers.log ▸ stray.misleads
  whole := defers.log ▸ stray.whole
  applied := defers.lastApplied.trans stray.applied
  uncommitted := defers.commitIndex.trans stray.uncommitted
  longer := defers.log ▸ stray.longer
  newer := defers.log ▸ stray.newer
  later index behind inside := Nat.lt_of_lt_of_le (stray.later index behind inside) defers.term
  astray leads := defers.astray (stray.astray (defers.leads leads))

theorem becomeLeader (stray : node.Stray other peer) (known : peer ∈ node.peers) (now : Nat) :
    (node.becomeLeader now).Stray other peer where
  misleads := stray.misleads
  whole := stray.whole
  applied := stray.applied
  uncommitted := stray.uncommitted
  longer := stray.longer
  newer := stray.newer
  later := stray.later
  astray _ := by
    have next : (node.becomeLeader now).nextIndex.read peer = node.log.lastIndex + 1 :=
      read_foldl_set _ known _
    rw [Astray, next]
    exact .inl stray.longer

theorem append (stray : node.Stray other peer) (entry : LogEntry)
    (term : entry.term = node.currentTerm) :
    Stray other peer (RaftNode.persist { node with log := node.log.append [entry] }) ∧
      (node.Astray other peer →
        Astray other peer (RaftNode.persist { node with log := node.log.append [entry] })) := by
  obtain ⟨misleads, shared⟩ := stray.misleads.append stray.whole entry fun index behind inside =>
    term ▸ Nat.ne_of_lt (stray.later index behind inside)
  have longer : other.snapshotIndex < (node.log.append [entry]).lastIndex := by
    rw [Log.lastIndex_append]
    exact Nat.lt_add_right _ stray.longer
  have newer : other.lastTerm < (node.log.append [entry]).lastTerm := by
    have last := stray.later _ stray.misleads.behind (Nat.le_refl _)
    rw [← Log.lastTerm_eq_get stray.misleads.behind, ← term] at last
    simpa [Log.lastTerm] using last
  have kept (astray : node.Astray other peer) :
      Astray other peer (RaftNode.persist { node with log := node.log.append [entry] }) := by
    rw [Astray, ← shared] at astray
    exact astray
  exact ⟨⟨misleads, stray.whole, stray.applied, stray.uncommitted, longer, newer, stray.later,
    fun leads => kept (stray.astray leads)⟩, kept⟩

theorem submit (stray : node.Stray other peer) (command : Bytes) :
    (node.submit command).1.Stray other peer ∧
      (node.Astray other peer → (node.submit command).1.Astray other peer) := by
  unfold RaftNode.submit
  split
  · exact ⟨stray, fun astray => astray⟩
  · exact stray.append _ rfl

/-- A refusal leads the node to where it is refused again. -/
theorem handleAppendReply (stray : node.Stray other peer) (now : Nat) (target : String)
    {term : Nat} (args : AppendEntriesArgs) {reply : AppendEntriesReply}
    (failed : reply.success = false)
    (hints : reply.term ≤ term → other.Hints reply.conflictTerm reply.conflictIndex) :
    (node.handleAppendReply now target term args reply).Stray other peer := by
  unfold RaftNode.handleAppendReply
  split
  · rename_i later
    exact stray.defers (.becomeFollower node (Nat.le_of_lt later))
  rename_i current
  split
  · exact stray
  rename_i fresh
  simp only [ne_eq, not_or, not_not] at fresh
  unfold recordReply
  rw [failed]
  refine ⟨stray.misleads, stray.whole, stray.applied, stray.uncommitted, stray.longer, stray.newer,
    stray.later, fun leads => ?_⟩
  change _ < (node.nextIndex.set target _).read peer - 1 ∨
    (node.nextIndex.set target _).read peer - 1 = _
  rw [Table.read_set]
  split
  · exact stray.misleads.next reply (hints (by omega))
  · exact stray.astray fresh.1

/-- There is nothing a snapshot could cover. -/
theorem takeSnapshot_eq (stray : node.Stray other peer) (data : Bytes) (saved : Bool) :
    node.takeSnapshot data saved = node := by
  rcases node.takeSnapshot_cases data saved with same | ⟨ahead, _⟩
  · exact same
  · rw [stray.applied, stray.whole] at ahead
    omega

theorem refused (stray : node.Stray other peer) (astray : node.Astray other peer) :
    0 < node.nextIndex.read peer ∧ ∀ follower : RaftNode, follower.log = other →
      ∃ conflictTerm conflictIndex,
        follower.prevConflict (node.buildArgsLocked peer) = some (conflictTerm, conflictIndex) ∧
        other.Hints conflictTerm conflictIndex := by
  refine ⟨?_, ?_⟩
  · have shared := stray.misleads.shared
    rcases astray with beyond | same <;> omega
  · rintro follower rfl
    exact stray.misleads.refused (node.buildArgsLocked peer) astray rfl

theorem boot (stray : node.Stray other peer) (cfg : Config) {disk : Disk}
    {memory : PersistedState} (backs : disk.Backs memory) (log : memory.entries = node.log)
    (term : node.currentTerm ≤ memory.currentTerm) : (boot cfg disk).Stray other peer := by
  have recovered : (Raft.boot cfg disk).memory = memory :=
    (memory_boot cfg disk).trans backs.recovered
  have kept : (Raft.boot cfg disk).log = node.log :=
    (congrArg PersistedState.entries recovered).trans log
  have currentTerm : (Raft.boot cfg disk).currentTerm = memory.currentTerm :=
    congrArg PersistedState.currentTerm recovered
  have covered : disk.covered = 0 := by
    rw [← backs.snapshotIndex_eq, log, stray.whole]
  obtain ⟨_, _, booted⟩ := boot_eq cfg disk
  refine ⟨kept ▸ stray.misleads, kept ▸ stray.whole, ?_, ?_, kept ▸ stray.longer,
    kept ▸ stray.newer, ?_, ?_⟩
  · rw [booted]
    exact covered
  · rw [booted]
    exact covered
  · intro index behind inside
    rw [currentTerm]
    exact Nat.lt_of_lt_of_le (stray.later index behind inside) term
  · intro leads
    rw [booted] at leads
    cases leads

end Stray

/-- A node that leads no term and has committed nothing behind its snapshot. -/
structure Stuck (other : Log) (node : RaftNode) : Prop where
  log : node.log = other
  follows : node.state ≠ .leader
  applied : node.lastApplied ≤ node.commitIndex
  covered : node.commitIndex ≤ other.snapshotIndex

namespace Stuck

theorem defers (stuck : node.Stuck other) (defers : node.Defers after) : after.Stuck other where
  log := defers.log.trans stuck.log
  follows leads := stuck.follows (defers.leads leads)
  applied := by
    rw [defers.lastApplied, defers.commitIndex]
    exact stuck.applied
  covered := defers.commitIndex ▸ stuck.covered

theorem takeSnapshot_eq (stuck : node.Stuck other) (data : Bytes) (saved : Bool) :
    node.takeSnapshot data saved = node := by
  rcases node.takeSnapshot_cases data saved with same | ⟨ahead, _⟩
  · exact same
  · rw [stuck.log] at ahead
    have applied := stuck.applied
    have covered := stuck.covered
    omega

theorem boot (stuck : node.Stuck other) (cfg : Config) {disk : Disk} {memory : PersistedState}
    (backs : disk.Backs memory) (log : memory.entries = node.log) :
    (boot cfg disk).Stuck other := by
  have recovered : (Raft.boot cfg disk).memory = memory :=
    (memory_boot cfg disk).trans backs.recovered
  have kept : (Raft.boot cfg disk).log = other :=
    ((congrArg PersistedState.entries recovered).trans log).trans stuck.log
  have covered : disk.covered = other.snapshotIndex := by
    rw [← backs.snapshotIndex_eq, log, stuck.log]
  obtain ⟨_, _, booted⟩ := boot_eq cfg disk
  refine ⟨kept, ?_, ?_, ?_⟩ <;> rw [booted]
  · exact fun leads => by cases leads
  · exact Nat.le_of_eq covered

end Stuck

end RaftNode

end RaftGo.Raft
