import RaftGo.Raft.Membership

/-! What each handler can do, case by case. Most of what a message can cause is a
step down to a later term and nothing else; the other cases are named here once. -/

namespace RaftGo.Raft

/-- What applying a membership change makes of the peers of the node at `self`. -/
def LogEntry.reconfigure (entry : LogEntry) (self : String) (peers : List String) : List String :=
  match entry.configOp with
  | .add => if entry.configPeer = self ∨ entry.configPeer ∈ peers then peers
      else peers ++ [entry.configPeer]
  | .remove => if entry.configPeer = self then [] else peers.filter (· ≠ entry.configPeer)
  | .unset => peers

theorem Log.sentinel_mergeEntries (log : Log) (entries : List LogEntry) :
    (log.mergeEntries entries).sentinel = log.sentinel := by
  induction entries with
  | nil => rfl
  | cons entry rest ih =>
    unfold Log.mergeEntries
    split
    · exact ih
    · dsimp only
      split
      · rfl
      · split
        · exact log.sentinel_truncateFrom entry.index
        · exact ih

theorem Log.snapshotIndex_mergeEntries (log : Log) (entries : List LogEntry) :
    (log.mergeEntries entries).snapshotIndex = log.snapshotIndex :=
  congrArg LogEntry.index (log.sentinel_mergeEntries entries)

/-- What lies behind the marker stays readable up to a bound. -/
structure Log.Keeps (log after : Log) (bound : Nat) : Prop where
  reach : bound ≤ after.lastIndex
  get : ∀ index, log.snapshotIndex < index → index ≤ bound → after.get index = log.get index

/-- The merge loop truncates at an entry that conflicts with the log. -/
theorem Log.truncation_conflict (log : Log) {entries : List LogEntry} {cut : Nat}
    (truncates : log.truncation entries = some cut) : ∃ entry ∈ entries, entry.index = cut ∧
      log.snapshotIndex < cut ∧ (log.get cut).term ≠ entry.term := by
  induction entries with
  | nil => cases truncates
  | cons entry rest ih =>
    have later (found : log.truncation rest = some cut) : ∃ other ∈ entry :: rest,
        other.index = cut ∧ log.snapshotIndex < cut ∧ (log.get cut).term ≠ other.term := by
      obtain ⟨other, member, conflict⟩ := ih found
      exact ⟨other, List.mem_cons_of_mem _ member, conflict⟩
    simp only [Log.truncation] at truncates
    split at truncates
    · exact later truncates
    · rename_i above
      split at truncates
      · cases truncates
      · split at truncates
        · rename_i conflict
          cases truncates
          exact ⟨entry, List.mem_cons_self, rfl, Nat.lt_of_not_le above, conflict⟩
        · exact later truncates

/-- The merge loop changes nothing before the index it truncates at. -/
theorem Log.mergeEntries_keeps (log : Log) {entries : List LogEntry} {bound : Nat}
    (inside : bound ≤ log.lastIndex)
    (uncut : ∀ cut, log.truncation entries = some cut → bound < cut) :
    log.Keeps (log.mergeEntries entries) bound := by
  induction entries with
  | nil => exact ⟨inside, fun _ _ _ => rfl⟩
  | cons entry rest ih =>
    simp only [Log.truncation] at uncut
    unfold Log.mergeEntries
    split
    · rename_i covered
      rw [if_pos covered] at uncut
      exact ih uncut
    · rename_i above
      rw [if_neg above] at uncut
      dsimp only at uncut ⊢
      split
      · refine ⟨?_, fun index behind below => log.get_append _ behind (below.trans inside)⟩
        rw [Log.lastIndex_append]
        exact Nat.le_add_right_of_le inside
      · rename_i present
        rw [if_neg present] at uncut
        split
        · rename_i conflict
          rw [if_pos conflict] at uncut
          have above := Nat.lt_of_not_le above
          have beyond := uncut entry.index rfl
          have same : (log.truncateFrom entry.index).snapshotIndex = log.snapshotIndex :=
            congrArg LogEntry.index (log.sentinel_truncateFrom entry.index)
          have kept : bound ≤ (log.truncateFrom entry.index).lastIndex := by
            rw [Log.lastIndex_eq, same, log.truncateFrom_rest above, List.length_take]
            rw [Log.lastIndex_eq] at inside
            omega
          refine ⟨?_, fun index behind below => ?_⟩
          · rw [Log.lastIndex_append]
            exact Nat.le_add_right_of_le kept
          · rw [Log.get_append _ _ (same ▸ behind) (below.trans kept),
              log.get_truncateFrom behind (Nat.lt_of_le_of_lt below beyond)]
        · rename_i agrees
          rw [if_neg agrees] at uncut
          exact ih uncut

namespace RaftNode

variable {node after : RaftNode}

theorem stepDown_cases (node : RaftNode) (term : Nat) :
    (term ≤ node.currentTerm ∧ node.stepDown term = node) ∨
      node.currentTerm < term ∧ node.stepDown term = node.becomeFollower term := by
  unfold stepDown
  split
  · rename_i later
    exact .inr ⟨later, rfl⟩
  · rename_i current
    exact .inl ⟨Nat.le_of_not_lt current, rfl⟩

theorem stepDown_of_le {term : Nat} (current : term ≤ node.currentTerm) :
    node.stepDown term = node :=
  if_neg (Nat.not_lt.mpr current)

theorem stepDown_of_lt {term : Nat} (later : node.currentTerm < term) :
    node.stepDown term = node.becomeFollower term :=
  if_pos later

theorem currentTerm_stepDown (node : RaftNode) (term : Nat) :
    (node.stepDown term).currentTerm = max node.currentTerm term := by
  rcases node.stepDown_cases term with ⟨current, same⟩ | ⟨later, stepped⟩
  · rw [same, Nat.max_eq_left current]
  · rw [stepped, Nat.max_eq_right (Nat.le_of_lt later)]
    rfl

theorem log_stepDown (node : RaftNode) (term : Nat) :
    (node.stepDown term).log = node.log := by
  unfold stepDown
  split <;> rfl

/-- A vote request is refused, after perhaps stepping down, or the vote is granted
in the term of the request. -/
theorem handleRequestVote_cases (node : RaftNode) (now : Nat) (args : RequestVoteArgs) :
    ((∃ term, (node.handleRequestVote now args).1 = node.stepDown term) ∧
      ((node.handleRequestVote now args).2.voteGranted = true → args.isPreVote = true)) ∨
    (args.isPreVote = false ∧ (node.stepDown args.term).currentTerm = args.term ∧
      ((node.stepDown args.term).votedFor = "" ∨
        (node.stepDown args.term).votedFor = args.candidateID) ∧
      (node.stepDown args.term).candidateUpToDate args = true ∧
      (node.handleRequestVote now args).1 =
        (node.stepDown args.term).grantVote args.candidateID) := by
  unfold handleRequestVote
  split
  · rename_i probe
    refine .inl ⟨⟨0, ?_⟩, fun _ => probe⟩
    rw [stepDown_of_le (Nat.zero_le _)]
    unfold handlePreVote
    split <;> rfl
  · rename_i real
    unfold handleRealVote
    dsimp only
    split
    · exact .inl ⟨⟨_, rfl⟩, by simp⟩
    · rename_i current
      split
      · rename_i willing
        simp only [canVote, Bool.and_eq_true, Bool.or_eq_true, beq_iff_eq] at willing
        refine .inr ⟨by simpa using real, ?_, willing.1, willing.2, rfl⟩
        rcases node.stepDown_cases args.term with ⟨within, same⟩ | ⟨_, stepped⟩
        · rw [same] at current ⊢
          omega
        · rw [stepped]
          rfl
      · exact .inl ⟨⟨_, rfl⟩, by simp⟩

/-- A vote reply is ignored or counted, makes the node step down, or wins the
election. -/
theorem handleVoteReply_cases (node : RaftNode) (now term votes majority : Nat)
    (reply : RequestVoteReply) :
    ((∃ seen, (node.handleVoteReply now term votes majority reply).1 = node.stepDown seen) ∧
      ((node.handleVoteReply now term votes majority reply).2 = true →
        reply.voteGranted = true)) ∨
    (node.state = .candidate ∧ node.currentTerm = term ∧ reply.voteGranted = true ∧
      majority ≤ votes + 1 ∧
      node.handleVoteReply now term votes majority reply = (node.becomeLeader now, true)) := by
  have ignored : ∃ seen, node = node.stepDown seen := ⟨0, (stepDown_of_le (Nat.zero_le _)).symm⟩
  unfold handleVoteReply
  split
  · rename_i later
    exact .inl ⟨⟨reply.term, (stepDown_of_lt later).symm⟩, by simp⟩
  · split
    · exact .inl ⟨ignored, by simp⟩
    · rename_i fresh
      simp only [ne_eq, not_or, not_not] at fresh
      split
      · exact .inl ⟨ignored, by simp⟩
      · rename_i vote
        have granted : reply.voteGranted = true := by simpa using vote
        split
        · rename_i won
          exact .inr ⟨fresh.1, fresh.2, granted, won, rfl⟩
        · exact .inl ⟨ignored, fun _ => granted⟩

/-- A reply to `AppendEntries` is recorded by the leader of the term it was sent
in; any other node ignores it or steps down. -/
theorem handleAppendReply_cases (node : RaftNode) (now : Nat) (peer : String) (term : Nat)
    (args : AppendEntriesArgs) (reply : AppendEntriesReply) :
    (∃ seen, node.handleAppendReply now peer term args reply = node.stepDown seen) ∨
    (node.state = .leader ∧ node.currentTerm = term ∧
      node.handleAppendReply now peer term args reply = node.recordReply now peer args reply) := by
  unfold handleAppendReply
  split
  · rename_i later
    exact .inl ⟨reply.term, (stepDown_of_lt later).symm⟩
  · split
    · exact .inl ⟨0, (stepDown_of_le (Nat.zero_le _)).symm⟩
    · rename_i fresh
      simp only [ne_eq, not_or, not_not] at fresh
      exact .inr ⟨fresh.1, fresh.2, rfl⟩

theorem handleInstallReply_cases (node : RaftNode) (peer : String) (term : Nat)
    (args : InstallSnapshotArgs) (reply : InstallSnapshotReply) :
    (∃ seen, node.handleInstallReply peer term args reply = node.stepDown seen) ∨
    (node.state = .leader ∧ node.currentTerm = term ∧
      node.handleInstallReply peer term args reply =
        node.advanceMatch peer args.lastIncludedIndex) := by
  unfold handleInstallReply
  split
  · rename_i later
    exact .inl ⟨reply.term, (stepDown_of_lt later).symm⟩
  · split
    · exact .inl ⟨0, (stepDown_of_le (Nat.zero_le _)).symm⟩
    · rename_i fresh
      simp only [ne_eq, not_or, not_not] at fresh
      exact .inr ⟨fresh.1, fresh.2, rfl⟩

theorem advanceMatch_eq (node : RaftNode) (peer : String) (newMatch : Nat) :
    ∃ nextIndex matchIndex, node.advanceMatch peer newMatch =
      { node with nextIndex := nextIndex, matchIndex := matchIndex } := by
  unfold advanceMatch
  dsimp only
  split <;> exact ⟨_, _, rfl⟩

theorem read_advanceMatch (node : RaftNode) (peer : String) (newMatch : Nat) (other : String) :
    ((node.advanceMatch peer newMatch).matchIndex.read other = if other = peer
      then max (node.matchIndex.read peer) newMatch else node.matchIndex.read other) ∧
    ((node.advanceMatch peer newMatch).nextIndex.read other = if other = peer
      then max (node.matchIndex.read peer) newMatch + 1 else node.nextIndex.read other) := by
  unfold advanceMatch
  dsimp only
  by_cases larger : newMatch > node.matchIndex.read peer
  · rw [if_pos larger, Nat.max_eq_right (Nat.le_of_lt larger)]
    simp only [Table.read_set, ↓reduceIte, and_self]
  · rw [if_neg larger, Nat.max_eq_left (Nat.le_of_not_lt larger), Table.read_set]
    refine ⟨?_, rfl⟩
    split
    · rename_i same
      rw [same]
    · rfl

/-- A leader that hears from a quorum counts its heartbeats and does nothing else on a
heartbeat tick. -/
theorem heartbeatTick_of_quorum {now : Nat}
    (quorum : node.state = .leader → node.majority ≤ node.heard now) :
    ∃ sent, (node.heartbeatTick now).1 = { node with heartbeatsSent := sent } := by
  unfold heartbeatTick
  split
  · rename_i leads
    have stays : node.checkQuorum now = node := by
      rw [checkQuorum, if_neg (not_not.mpr leads), if_neg (Nat.not_lt.mpr (quorum leads))]
    rw [stays]
    exact ⟨_, rfl⟩
  · exact ⟨_, rfl⟩

theorem maybeCommit_eq (node : RaftNode) : ∃ commitIndex signal, node.maybeCommit =
    { node with commitIndex := commitIndex, commitNotifyC := signal } := by
  unfold maybeCommit
  split <;> exact ⟨_, _, rfl⟩

theorem recordReply_eq (node : RaftNode) (now : Nat) (peer : String) (args : AppendEntriesArgs)
    (reply : AppendEntriesReply) : ∃ nextIndex matchIndex lastHeardFrom commitIndex signal,
      node.recordReply now peer args reply = { node with
        nextIndex := nextIndex
        matchIndex := matchIndex
        lastHeardFrom := lastHeardFrom
        commitIndex := commitIndex
        commitNotifyC := signal } := by
  unfold recordReply
  dsimp only
  split
  · obtain ⟨nextIndex, matchIndex, advanced⟩ := advanceMatch_eq
      { node with lastHeardFrom := node.lastHeardFrom.set peer now } peer
      (args.prevLogIndex + args.entries.length)
    rw [advanced]
    obtain ⟨commitIndex, signal, committed⟩ := maybeCommit_eq { node with
      lastHeardFrom := node.lastHeardFrom.set peer now
      nextIndex := nextIndex
      matchIndex := matchIndex }
    exact ⟨_, _, _, _, _, committed⟩
  · exact ⟨_, _, _, _, _, rfl⟩

theorem observeLeader_cases (node : RaftNode) (term : Nat) :
    node.observeLeader term = node.stepDown term ∨
      (term = node.currentTerm ∧ node.state = .candidate ∧
        node.observeLeader term = { node with state := .follower }) := by
  unfold observeLeader
  split
  · rename_i later
    exact .inl (stepDown_of_lt later).symm
  · rename_i current
    split
    · rename_i conceding
      exact .inr ⟨conceding.1, conceding.2, rfl⟩
    · exact .inl (stepDown_of_le (Nat.le_of_not_lt current)).symm

theorem log_observeLeader (node : RaftNode) (term : Nat) :
    (node.observeLeader term).log = node.log := by
  rcases node.observeLeader_cases term with same | ⟨_, _, same⟩ <;> simp [same, log_stepDown]

theorem prevConflict_observeLeader (node : RaftNode) (args : AppendEntriesArgs) :
    (node.observeLeader args.term).prevConflict args = node.prevConflict args := by
  simp only [prevConflict, log_observeLeader]

/-- A request from an earlier term truncates nothing, and neither does one that
fails the consistency check. -/
theorem truncationIndex_cases {args : AppendEntriesArgs} {index : Nat}
    (truncates : node.truncationIndex args = some index) :
    node.currentTerm ≤ args.term ∧ node.prevConflict args = none ∧
      node.log.truncation args.entries = some index := by
  simp only [truncationIndex, prevConflict_observeLeader, log_observeLeader] at truncates
  split at truncates
  · cases truncates
  · rename_i current
    split at truncates
    · cases truncates
    · rename_i agrees
      refine ⟨?_, agrees, truncates⟩
      by_contra stale
      rcases node.observeLeader_cases args.term with same | ⟨same, _⟩
      · rw [same, stepDown_of_le (by omega)] at current
        omega
      · omega

/-- Whoever hears from the leader of its term is no candidate any more. -/
theorem not_candidate_of_observeLeader {term : Nat}
    (current : (node.observeLeader term).currentTerm = term) :
    (node.observeLeader term).state ≠ .candidate := by
  unfold observeLeader at current ⊢
  split at current
  · simp [*, becomeFollower, persist, write]
  · split at current
    · simp [*]
    · rename_i later other
      simp only [later, other, ↓reduceIte]
      exact fun stands => other ⟨current.symm, stands⟩

/-- An `AppendEntries` request is refused for its term, refused by the consistency
check, or accepted. -/
theorem handleAppendEntries_cases (node : RaftNode) (now : Nat) (args : AppendEntriesArgs) :
    (args.term < node.currentTerm ∧ (node.handleAppendEntries now args).1 = node ∧
      (node.handleAppendEntries now args).2.success = false) ∨
    ((node.observeLeader args.term).currentTerm = args.term ∧
      (((node.handleAppendEntries now args).1 =
            (node.observeLeader args.term).contacted now args.leaderID ∧
          (node.handleAppendEntries now args).2.success = false) ∨
        ((node.observeLeader args.term).prevConflict args = none ∧
          (node.handleAppendEntries now args).1 =
            ((node.observeLeader args.term).contacted now args.leaderID).acceptEntries args))) := by
  have reached : args.term ≤ (node.observeLeader args.term).currentTerm ∧
      (args.term < (node.observeLeader args.term).currentTerm →
        node.observeLeader args.term = node) := by
    unfold observeLeader
    split
    · exact ⟨Nat.le_refl _, fun stale => absurd stale (Nat.lt_irrefl _)⟩
    · rename_i current
      split
      · rename_i same
        exact ⟨Nat.le_of_not_lt current, fun stale => absurd same.1 (Nat.ne_of_lt stale)⟩
      · exact ⟨Nat.le_of_not_lt current, fun _ => rfl⟩
  unfold handleAppendEntries
  dsimp only
  split
  · rename_i stale
    have same := reached.2 stale
    exact .inl ⟨by rwa [same] at stale, same, rfl⟩
  · rename_i current
    refine .inr ⟨Nat.le_antisymm (Nat.le_of_not_lt current) reached.1, ?_⟩
    have checked : ((node.observeLeader args.term).contacted now args.leaderID).prevConflict args =
        (node.observeLeader args.term).prevConflict args := rfl
    rw [checked]
    split
    · exact .inl ⟨rfl, rfl⟩
    · rename_i agrees
      exact .inr ⟨agrees, rfl⟩

theorem currentTerm_observeLeader {term : Nat} (current : node.currentTerm ≤ term) :
    (node.observeLeader term).currentTerm = term := by
  rcases node.observeLeader_cases term with same | ⟨reached, _, conceded⟩
  · rw [same, currentTerm_stepDown, Nat.max_eq_right current]
  · rw [conceded, reached]

theorem commitIndex_observeLeader (node : RaftNode) (term : Nat) :
    (node.observeLeader term).commitIndex = node.commitIndex := by
  unfold observeLeader
  split
  · rfl
  · split <;> rfl

theorem handleAppendEntries_accepted {args : AppendEntriesArgs}
    (current : node.currentTerm ≤ args.term) (agrees : node.prevConflict args = none) (now : Nat) :
    node.handleAppendEntries now args =
      (((node.observeLeader args.term).contacted now args.leaderID).acceptEntries args,
        { term := args.term, success := true }) := by
  have reached := currentTerm_observeLeader current
  have checked : ((node.observeLeader args.term).contacted now args.leaderID).prevConflict args =
      none := (prevConflict_observeLeader node args).trans agrees
  unfold handleAppendEntries
  dsimp only
  rw [if_neg (by omega), checked]
  exact congrArg (_, AppendEntriesReply.mk · true 0 0) reached

/-- A request of a current term that fails the check changes neither log nor
`commitIndex`, and the reply says where it fails. -/
theorem handleAppendEntries_rejected {args : AppendEntriesArgs} {conflictTerm conflictIndex : Nat}
    (current : node.currentTerm ≤ args.term)
    (conflict : node.prevConflict args = some (conflictTerm, conflictIndex)) (now : Nat) :
    node.handleAppendEntries now args =
      ((node.observeLeader args.term).contacted now args.leaderID,
        { term := args.term, conflictTerm, conflictIndex }) := by
  have reached := currentTerm_observeLeader current
  have checked : ((node.observeLeader args.term).contacted now args.leaderID).prevConflict args =
      some (conflictTerm, conflictIndex) := (prevConflict_observeLeader node args).trans conflict
  unfold handleAppendEntries
  dsimp only
  rw [if_neg (by omega), checked]
  exact congrArg (_, AppendEntriesReply.mk · false conflictTerm conflictIndex) reached

theorem success_handleAppendEntries {args : AppendEntriesArgs}
    (current : node.currentTerm ≤ args.term) (now : Nat) :
    (node.handleAppendEntries now args).2.success = true ↔ node.prevConflict args = none := by
  cases checked : node.prevConflict args with
  | none => simp [handleAppendEntries_accepted current checked]
  | some conflict => simp [handleAppendEntries_rejected current checked]

theorem prevConflict_eq_none {args : AppendEntriesArgs} : node.prevConflict args = none ↔
    (0 < args.prevLogIndex → (node.log.get args.prevLogIndex).term ≠ 0 ∧
      (node.log.get args.prevLogIndex).term = args.prevLogTerm) := by
  unfold prevConflict
  by_cases positive : 0 < args.prevLogIndex
  · simp only [positive, ↓reduceIte, forall_const]
    by_cases missing : (node.log.get args.prevLogIndex).term = 0
    · simp [missing]
    · by_cases same : (node.log.get args.prevLogIndex).term = args.prevLogTerm
      · rw [if_neg missing, same]
        simp [← same, missing]
      · simp [missing, same]
  · simp [positive]

theorem prevConflict_eq_some {args : AppendEntriesArgs} {conflictTerm conflictIndex : Nat}
    (conflict : node.prevConflict args = some (conflictTerm, conflictIndex)) :
    0 < args.prevLogIndex ∧
      (((node.log.get args.prevLogIndex).term = 0 ∧ conflictTerm = 0 ∧
        conflictIndex = node.log.lastIndex + 1) ∨
      ((node.log.get args.prevLogIndex).term ≠ 0 ∧
        (node.log.get args.prevLogIndex).term ≠ args.prevLogTerm ∧
        conflictTerm = (node.log.get args.prevLogIndex).term ∧
        conflictIndex = node.log.firstIndexForTerm (node.log.get args.prevLogIndex).term)) := by
  unfold prevConflict at conflict
  dsimp only at conflict
  split at conflict
  · rename_i positive
    refine ⟨positive, ?_⟩
    split at conflict
    · rename_i missing
      cases conflict
      exact .inl ⟨missing, rfl, rfl⟩
    · rename_i present
      split at conflict
      · rename_i other
        cases conflict
        exact .inr ⟨present, other, rfl, rfl⟩
      · cases conflict
  · cases conflict

theorem prevLogIndex_le {args : AppendEntriesArgs} (agrees : node.prevConflict args = none) :
    args.prevLogIndex ≤ node.log.lastIndex := by
  by_contra beyond
  have beyond := Nat.lt_of_not_le beyond
  have present := (prevConflict_eq_none.mp agrees (Nat.zero_lt_of_lt beyond)).1
  rw [node.log.get_of_lastIndex_lt beyond] at present
  exact present rfl

theorem acceptEntries_eq (node : RaftNode) (args : AppendEntriesArgs) :
    ∃ signal received, node.acceptEntries args = { RaftNode.persist { node with
        log := node.log.mergeEntries args.entries
        commitIndex := if args.leaderCommit > node.commitIndex
          then min args.leaderCommit (node.log.mergeEntries args.entries).lastIndex
          else node.commitIndex
        commitNotifyC := signal } with heartbeatsRecv := received } := by
  unfold acceptEntries advanceCommit
  dsimp only
  by_cases ahead : args.leaderCommit > node.commitIndex
  · simp only [ahead, ↓reduceIte]
    split
    · exact ⟨true, node.heartbeatsRecv + 1, rfl⟩
    · exact ⟨true, node.heartbeatsRecv, rfl⟩
  · simp only [ahead, ↓reduceIte]
    split
    · exact ⟨node.commitNotifyC, node.heartbeatsRecv + 1, rfl⟩
    · exact ⟨node.commitNotifyC, node.heartbeatsRecv, rfl⟩

theorem log_acceptEntries (node : RaftNode) (args : AppendEntriesArgs) :
    (node.acceptEntries args).log = node.log.mergeEntries args.entries := by
  obtain ⟨signal, received, accepted⟩ := node.acceptEntries_eq args
  rw [accepted]
  rfl

theorem log_handleAppendEntries_cases (node : RaftNode) (now : Nat) (args : AppendEntriesArgs) :
    (node.handleAppendEntries now args).1.log = node.log ∨
      node.prevConflict args = none ∧
      node.truncationIndex args = node.log.truncation args.entries ∧
      (node.handleAppendEntries now args).1.log = node.log.mergeEntries args.entries := by
  have observed := node.log_observeLeader args.term
  rcases node.handleAppendEntries_cases now args with ⟨_, stale, _⟩ |
    ⟨reached, ⟨refused, _⟩ | ⟨agrees, accepted⟩⟩
  · exact .inl (congrArg log stale)
  · exact .inl ((congrArg log refused).trans observed)
  · refine .inr ⟨node.prevConflict_observeLeader args ▸ agrees, ?_, ?_⟩
    · simp only [truncationIndex]
      rw [if_neg (by omega), agrees, observed]
    · rw [accepted, log_acceptEntries]
      exact congrArg (Log.mergeEntries · args.entries) observed

theorem commitIndex_acceptEntries (node : RaftNode) (args : AppendEntriesArgs) :
    (node.acceptEntries args).commitIndex = if args.leaderCommit > node.commitIndex
      then min args.leaderCommit (node.log.mergeEntries args.entries).lastIndex
      else node.commitIndex := by
  obtain ⟨signal, received, accepted⟩ := node.acceptEntries_eq args
  rw [accepted]
  rfl

theorem currentTerm_acceptEntries (node : RaftNode) (args : AppendEntriesArgs) :
    (node.acceptEntries args).currentTerm = node.currentTerm := by
  obtain ⟨signal, received, accepted⟩ := node.acceptEntries_eq args
  rw [accepted]
  rfl

theorem currentTerm_handleAppendEntries (node : RaftNode) (now : Nat) (args : AppendEntriesArgs) :
    (node.handleAppendEntries now args).1.currentTerm =
      (node.observeLeader args.term).currentTerm := by
  unfold handleAppendEntries
  dsimp only
  split
  · rfl
  · split
    · rfl
    · rw [currentTerm_acceptEntries]
      rfl

theorem saveSnapshot_cases {index term : Nat} {data : Bytes} {saved : Bool}
    (wrote : node.saveSnapshot index term data saved = some after) :
    saved = true ∧
      after = node.write { node.disk with snapshot := some { index, term, data } } := by
  unfold saveSnapshot at wrote
  split at wrote
  · rename_i written
    exact ⟨written, (Option.some.inj wrote).symm⟩
  · cases wrote

theorem takeSnapshot_eq (node : RaftNode) (data : Bytes) (saved : Bool) :
    node.takeSnapshot data saved = node ∨
    (node.log.snapshotIndex < node.lastApplied ∧
      node.takeSnapshot data saved = RaftNode.persist {
        node.write { node.disk with
          snapshot := some {
            index := node.lastApplied
            term := (node.log.get node.lastApplied).term
            data := data } } with
        snapshotData := data
        log := node.log.compactTo node.lastApplied (node.log.get node.lastApplied).term }) := by
  unfold takeSnapshot
  dsimp only
  split
  · exact .inl rfl
  · rename_i due
    split
    · exact .inl rfl
    · rename_i wrote
      rw [(saveSnapshot_cases wrote).2]
      exact .inr ⟨by omega, rfl⟩

theorem takeSnapshot_cases (node : RaftNode) (data : Bytes) (saved : Bool) :
    node.takeSnapshot data saved = node ∨
    (node.log.snapshotIndex < node.lastApplied ∧ ∃ term,
      node.takeSnapshot data saved = RaftNode.persist {
        node.write { node.disk with
          snapshot := some { index := node.lastApplied, term, data } } with
        snapshotData := data
        log := node.log.compactTo node.lastApplied term }) := by
  rcases node.takeSnapshot_eq data saved with same | ⟨ahead, built⟩
  · exact .inl same
  · exact .inr ⟨ahead, _, built⟩

/-- What `HandleInstallSnapshot` does before it looks at the snapshot itself. -/
inductive Relieved (node : RaftNode) (args : InstallSnapshotArgs) : RaftNode → Prop where
  | stale : Relieved node args (node.stepDown args.term)
  | current (reached : (node.stepDown args.term).currentTerm = args.term) : Relieved node args
      (notifyHeartbeat { node.stepDown args.term with leaderID := args.leaderID })

theorem Relieved.log_eq {args : InstallSnapshotArgs} (relieved : Relieved node args after) :
    after.log = node.log := by
  cases relieved <;> exact log_stepDown node args.term

theorem Relieved.currentTerm_eq {args : InstallSnapshotArgs} (relieved : Relieved node args after) :
    after.currentTerm = (node.stepDown args.term).currentTerm := by
  cases relieved <;> rfl

/-- A snapshot is ignored, or it lies ahead of the node's own, its file is saved and the
node jumps to it. Among those ignored in the term of the request are the ones the node
has covered already, and the ones whose file could not be saved. -/
theorem handleInstallSnapshot_outcome (node : RaftNode) (args : InstallSnapshotArgs)
    (saved : Bool) :
    (Relieved node args (node.handleInstallSnapshot args saved).1 ∧
      (saved = true → (node.handleInstallSnapshot args saved).2.term ≤ args.term →
        args.lastIncludedIndex ≤ node.log.snapshotIndex)) ∨
    (saved = true ∧ (node.stepDown args.term).currentTerm = args.term ∧
      node.log.snapshotIndex < args.lastIncludedIndex ∧
      (node.handleInstallSnapshot args saved).1 = (write
        (notifyHeartbeat { node.stepDown args.term with leaderID := args.leaderID })
        { (node.stepDown args.term).disk with
          snapshot := some {
            index := args.lastIncludedIndex
            term := args.lastIncludedTerm
            data := args.data } }).installSnapshot args) := by
  unfold handleInstallSnapshot
  dsimp only
  split
  · rename_i stale
    exact .inl ⟨.stale, fun _ current => absurd stale (Nat.not_lt.mpr current)⟩
  · rename_i current
    have reached : (node.stepDown args.term).currentTerm = args.term := by
      rcases node.stepDown_cases args.term with ⟨within, same⟩ | ⟨_, stepped⟩
      · rw [same] at current ⊢
        omega
      · rw [stepped]
        rfl
    have same := congrArg Log.snapshotIndex (node.log_stepDown args.term)
    split
    · rename_i covered
      exact .inl ⟨.current reached, fun _ _ => same ▸ covered⟩
    · rename_i ahead
      split
      · rename_i failed
        refine .inl ⟨.current reached, ?_⟩
        rintro rfl
        simp [saveSnapshot] at failed
      · rename_i wrote
        obtain ⟨written, stored⟩ := saveSnapshot_cases wrote
        rw [stored]
        exact .inr ⟨written, reached, same ▸ Nat.lt_of_not_le ahead, rfl⟩

theorem term_handleInstallSnapshot (node : RaftNode) (args : InstallSnapshotArgs)
    (saved : Bool) :
    (node.handleInstallSnapshot args saved).2.term = max node.currentTerm args.term := by
  rw [← currentTerm_stepDown]
  unfold handleInstallSnapshot
  dsimp only
  split
  · rfl
  · split
    · rfl
    · split <;> rfl

theorem currentTerm_handleInstallSnapshot (node : RaftNode) (args : InstallSnapshotArgs)
    (saved : Bool) :
    (node.handleInstallSnapshot args saved).1.currentTerm = max node.currentTerm args.term := by
  rw [← currentTerm_stepDown]
  rcases node.handleInstallSnapshot_outcome args saved with ⟨relieved, _⟩ | ⟨_, _, _, installed⟩
  · exact relieved.currentTerm_eq
  · simp only [installed, installSnapshot, persist, write, notifyHeartbeat]

theorem handleInstallSnapshot_cases (node : RaftNode) (args : InstallSnapshotArgs)
    (saved : Bool) : ∃ relieved, Relieved node args relieved ∧
      ((node.handleInstallSnapshot args saved).1 = relieved ∨
        (node.log.snapshotIndex < args.lastIncludedIndex ∧
          (node.handleInstallSnapshot args saved).1 = (relieved.write { relieved.disk with
            snapshot := some {
              index := args.lastIncludedIndex
              term := args.lastIncludedTerm
              data := args.data } }).installSnapshot args)) := by
  rcases node.handleInstallSnapshot_outcome args saved with
    ⟨relieved, _⟩ | ⟨_, reached, ahead, installed⟩
  · exact ⟨_, relieved, .inl rfl⟩
  · exact ⟨_, .current reached, .inr ⟨ahead, installed⟩⟩

theorem log_handleInstallSnapshot_cases (node : RaftNode) (args : InstallSnapshotArgs)
    (saved : Bool) : (node.handleInstallSnapshot args saved).1.log = node.log ∨
      node.log.snapshotIndex < args.lastIncludedIndex ∧
      (node.handleInstallSnapshot args saved).1.log =
        node.log.compactTo args.lastIncludedIndex args.lastIncludedTerm := by
  obtain ⟨relieved, before, same | ⟨ahead, installed⟩⟩ :=
    node.handleInstallSnapshot_cases args saved
  · exact .inl ((congrArg log same).trans before.log_eq)
  · refine .inr ⟨ahead, ?_⟩
    rw [installed]
    exact congrArg (Log.compactTo · args.lastIncludedIndex args.lastIncludedTerm) before.log_eq

theorem handleInstallSnapshot_covered {args : InstallSnapshotArgs} (saved : Bool)
    (covered : args.lastIncludedIndex ≤ node.log.snapshotIndex) :
    Relieved node args (node.handleInstallSnapshot args saved).1 := by
  obtain ⟨relieved, before, same | ⟨ahead, _⟩⟩ := node.handleInstallSnapshot_cases args saved
  · exact same ▸ before
  · exact absurd covered (Nat.not_le.mpr ahead)

/-- The entry `AddPeer` appends, if it appends one. -/
def addEntry? (node : RaftNode) (rpcAddr : String) : Option LogEntry :=
  if node.state = .leader ∧ rpcAddr ≠ node.config.selfAddr ∧ rpcAddr ∉ node.peers
  then some (node.configEntry .add rpcAddr) else none

/-- The entry `RemovePeer` appends, if it appends one. -/
def removeEntry? (node : RaftNode) (rpcAddr : String) : Option LogEntry :=
  if node.state = .leader ∧ (rpcAddr = node.config.selfAddr ∨ rpcAddr ∈ node.peers)
  then some (node.configEntry .remove rpcAddr) else none

theorem addPeer_cases (node : RaftNode) (now : Nat) (rpcAddr : String) :
    (node.addEntry? rpcAddr = none ∧ (node.addPeer now rpcAddr).1 = node ∧
      (node.addPeer now rpcAddr).2.2 = []) ∨
    (node.addEntry? rpcAddr = some (node.configEntry .add rpcAddr) ∧ node.state = .leader ∧
      rpcAddr ≠ node.config.selfAddr ∧ rpcAddr ∉ node.peers ∧
      (node.addPeer now rpcAddr).1 =
        trackPeer { RaftNode.persist { node with
          log := node.log.append [node.configEntry .add rpcAddr] } with
          peers := node.peers ++ [rpcAddr] } now rpcAddr (node.log.lastIndex + 1) ∧
      (node.addPeer now rpcAddr).2.2 = (node.addPeer now rpcAddr).1.replicate) := by
  unfold addEntry? addPeer
  by_cases leads : node.state = .leader
  · by_cases known : rpcAddr = node.config.selfAddr ∨ rpcAddr ∈ node.peers
    · refine .inl ⟨if_neg ?_, by simp [leads, known], by simp [leads, known]⟩
      rintro ⟨_, other, fresh⟩
      exact known.elim other fresh
    · have fresh := not_or.mp known
      rw [if_neg (not_not.mpr leads), if_neg known]
      exact .inr ⟨if_pos ⟨leads, fresh⟩, leads, fresh.1, fresh.2, rfl, rfl⟩
  · exact .inl ⟨if_neg fun accepted => leads accepted.1, by simp [leads], by simp [leads]⟩

theorem removePeer_cases (node : RaftNode) (now : Nat) (rpcAddr : String) :
    (node.removeEntry? rpcAddr = none ∧ (node.removePeer now rpcAddr).1 = node ∧
      (node.removePeer now rpcAddr).2.2 = []) ∨
    (node.removeEntry? rpcAddr = some (node.configEntry .remove rpcAddr) ∧
      node.state = .leader ∧
      (node.removePeer now rpcAddr).1 = RaftNode.persist { node with
        log := node.log.append [node.configEntry .remove rpcAddr] } ∧
      (node.removePeer now rpcAddr).2.2 = (node.removePeer now rpcAddr).1.replicate) := by
  unfold removeEntry? removePeer
  by_cases leads : node.state = .leader
  · by_cases known : rpcAddr = node.config.selfAddr ∨ rpcAddr ∈ node.peers
    · rw [if_neg (not_not.mpr leads), if_pos known]
      exact .inr ⟨if_pos ⟨leads, known⟩, leads, rfl, rfl⟩
    · exact .inl ⟨if_neg fun accepted => known accepted.2, by simp [leads, known],
        by simp [leads, known]⟩
  · exact .inl ⟨if_neg fun accepted => leads accepted.1, by simp [leads], by simp [leads]⟩

/-- Applying a membership change moves the peers, what a leader tracks of them and
perhaps the leadership. -/
theorem applyConfigEntry_eq (node : RaftNode) (now : Nat) (entry : LogEntry) :
    ∃ state leaderID nextIndex matchIndex lastHeardFrom,
      (state = node.state ∨ state = .follower) ∧ node.applyConfigEntry now entry =
      { node with
        peers := entry.reconfigure node.config.selfAddr node.peers
        state := state
        leaderID := leaderID
        nextIndex := nextIndex
        matchIndex := matchIndex
        lastHeardFrom := lastHeardFrom } := by
  unfold applyConfigEntry leaveCluster LogEntry.reconfigure
  dsimp only
  cases entry.configOp with
  | unset => exact ⟨_, _, _, _, _, .inl rfl, rfl⟩
  | add =>
    dsimp only
    split
    · exact ⟨_, _, _, _, _, .inl rfl, rfl⟩
    · split <;> exact ⟨_, _, _, _, _, .inl rfl, rfl⟩
  | remove =>
    dsimp only
    split
    · split
      · exact ⟨_, _, _, _, _, .inr rfl, rfl⟩
      · exact ⟨_, _, _, _, _, .inl rfl, rfl⟩
    · exact ⟨_, _, _, _, _, .inl rfl, rfl⟩

end RaftNode

/-- The index of the snapshot file, zero if there is none. -/
def Disk.covered (disk : Disk) : Nat := (disk.snapshot.map SnapshotFile.index).getD 0

/-- Restoring jumps to the snapshot file; without one, or with one at index zero,
nothing happens. -/
theorem RaftNode.restoreFromSnapshot_eq (node : RaftNode) :
    ∃ (term : Nat) (data : Bytes), node.restoreFromSnapshot = { node with
      log := node.log.compactTo node.disk.covered term
      snapshotData := data
      lastApplied := max node.lastApplied node.disk.covered
      commitIndex := max node.commitIndex node.disk.covered } := by
  unfold restoreFromSnapshot Disk.covered
  cases node.disk.snapshot with
  | none => exact ⟨0, node.snapshotData, by simp [Log.compactTo]⟩
  | some file =>
    by_cases empty : file.index = 0
    · exact ⟨0, node.snapshotData, by simp [Log.compactTo, empty]⟩
    · exact ⟨file.term, file.data, by simp [empty]⟩

/-- The persisted log, or an empty one. -/
def Disk.log (disk : Disk) : Log := (disk.state.map PersistedState.entries).getD .new

/-- A node comes up with what its disk holds and forgets everything else. Without a
snapshot file, or with one at index zero, nothing is compacted. -/
theorem boot_eq (cfg : Config) (disk : Disk) : ∃ (term : Nat) (data : Bytes), boot cfg disk = { newRaftNode cfg with
    currentTerm := (disk.state.map (·.currentTerm)).getD 0
    votedFor := (disk.state.map (·.votedFor)).getD ""
    log := disk.log.compactTo disk.covered term
    lastApplied := disk.covered
    commitIndex := disk.covered
    snapshotData := data
    disk := disk } := by
  obtain ⟨term, data, restored⟩ :=
    ({ newRaftNode cfg with disk := disk }.loadState).restoreFromSnapshot_eq
  refine ⟨term, data, ?_⟩
  rw [boot, restored]
  obtain ⟨state, snapshot⟩ := disk
  cases state <;> simp [RaftNode.loadState, Disk.log, newRaftNode]

end RaftGo.Raft
