import RaftGo.Raft.Applied
import RaftGo.Raft.Whole

/-! Nodes that follow one history of committed entries. Compaction moves the
window of the history a log shows, never what it shows. -/

namespace RaftGo.Raft

/-- The entries a cluster commits, from index 1 on. A term of zero would read as a
missing entry. -/
structure History where
  entries : List LogEntry
  indexed : Indexed entries
  stamped : ∀ entry ∈ entries, entry.term ≠ 0

variable {history : History}

theorem History.index_eq {index : Nat} {entry : LogEntry}
    (found : history.entries[index]? = some entry) : entry.index = index + 1 :=
  history.indexed index entry found

/-- A log shows the history from its snapshot boundary on, up to its last index. -/
structure Log.Follows (log : Log) (history : History) : Prop where
  window : log.rest <+: history.entries.drop log.snapshotIndex
  boundary : log.snapshotIndex ≤ history.entries.length

namespace Log.Follows

variable {log : Log}

theorem new : Log.new.Follows history := ⟨List.nil_prefix, Nat.zero_le _⟩

theorem found (follows : log.Follows history) {index : Nat} (above : log.snapshotIndex < index)
    (inside : index ≤ log.lastIndex) :
    history.entries[index - 1]? = some (log.get index) := by
  rw [lastIndex_eq] at inside
  have position : index - log.snapshotIndex - 1 < log.rest.length := by omega
  have shown := List.getElem?_eq_getElem position
  have held := Library.Consensus.getElem?_of_initial follows.window shown
  rw [List.getElem?_drop,
    show log.snapshotIndex + (index - log.snapshotIndex - 1) = index - 1 by omega] at held
  rw [held, log.get_of_gt above, shown, Option.getD_some]

theorem append (follows : log.Follows history) {more : List LogEntry}
    (next : more <+: history.entries.drop log.lastIndex) : (log.append more).Follows history where
  boundary := follows.boundary
  window := by
    obtain ⟨beyond, split⟩ := follows.window
    have same : beyond = history.entries.drop log.lastIndex := by
      rw [lastIndex_eq, ← List.drop_drop, ← split, List.drop_left]
    rw [snapshotIndex_append, rest_append, ← split]
    exact (List.prefix_append_right_inj _).mpr (same ▸ next)

theorem compactTo (follows : log.Follows history) {index : Nat} (term : Nat)
    (inside : index ≤ history.entries.length) : (log.compactTo index term).Follows history := by
  unfold Log.compactTo
  dsimp only
  split
  · exact follows
  · rename_i ahead
    split
    · exact ⟨List.nil_prefix, inside⟩
    · refine ⟨?_, inside⟩
      have shifted := follows.window.drop (index - log.snapshotIndex)
      rwa [List.drop_drop, Nat.add_sub_cancel' (Nat.le_of_not_le ahead)] at shifted

/-- Merging entries of the history appends those the log does not show yet. -/
theorem mergeEntries (follows : log.Follows history) {entries : List LogEntry} {position : Nat}
    (genuine : entries <+: history.entries.drop position) (reach : position ≤ log.lastIndex) :
    ∃ more, more <+: history.entries.drop log.lastIndex ∧
      log.mergeEntries entries = log.append more := by
  induction entries generalizing position with
  | nil => exact ⟨[], List.nil_prefix, by simp [Log.mergeEntries, Log.append]⟩
  | cons entry rest ih =>
    have held : history.entries[position]? = some entry := by
      have first := Library.Consensus.getElem?_of_initial genuine (List.getElem?_cons_zero)
      rwa [List.getElem?_drop] at first
    have tail : rest <+: history.entries.drop (position + 1) := by
      have shifted := genuine.drop 1
      rwa [List.drop_drop] at shifted
    have index : entry.index = position + 1 := History.index_eq held
    simp only [Log.mergeEntries, index]
    rcases Nat.lt_or_eq_of_le reach with inside | rfl
    · split
      · exact ih tail inside
      · rename_i above
        have shown := follows.found (Nat.lt_of_not_le above) inside
        rw [Nat.add_sub_cancel, held, Option.some.injEq] at shown
        rw [← shown, if_neg (history.stamped entry (List.mem_of_getElem? held)), if_neg (by simp)]
        exact ih tail inside
    · have beyond : log.snapshotIndex ≤ log.lastIndex := by
        rw [lastIndex_eq]
        exact Nat.le_add_right _ _
      have missing : (log.get (log.lastIndex + 1)).term = 0 := by
        rw [log.get_of_lastIndex_lt (Nat.lt_succ_self _)]
      rw [if_neg (by omega), if_pos missing]
      exact ⟨entry :: rest, genuine, rfl⟩

end Log.Follows

namespace RaftNode

variable {node after : RaftNode}

structure Follows (node : RaftNode) (history : History) : Prop where
  log : node.log.Follows history
  boundary : node.log.snapshotIndex ≤ node.lastApplied
  applied : node.lastApplied ≤ node.commitIndex
  committed : node.commitIndex ≤ node.log.lastIndex

namespace Follows

theorem frame (follows : node.Follows history) (log : after.log = node.log)
    (lastApplied : after.lastApplied = node.lastApplied)
    (commitIndex : after.commitIndex = node.commitIndex) : after.Follows history where
  log := log ▸ follows.log
  boundary := by
    rw [log, lastApplied]
    exact follows.boundary
  applied := by
    rw [lastApplied, commitIndex]
    exact follows.applied
  committed := by
    rw [log, commitIndex]
    exact follows.committed

theorem next (follows : node.Follows history) (behind : node.lastApplied < node.commitIndex) :
    history.entries[node.lastApplied]? = some (node.log.get (node.lastApplied + 1)) :=
  follows.log.found (Nat.lt_succ_of_le follows.boundary) (Nat.le_trans behind follows.committed)

theorem advance (follows : node.Follows history) (behind : node.lastApplied < node.commitIndex) :
    Follows { node with lastApplied := node.lastApplied + 1 } history where
  log := follows.log
  boundary := Nat.le_succ_of_le follows.boundary
  applied := behind
  committed := follows.committed

theorem lastApplied_le (follows : node.Follows history) :
    node.lastApplied ≤ history.entries.length := by
  have window := follows.log.window.length_le
  have reach := Nat.le_trans follows.applied follows.committed
  rw [Log.lastIndex_eq] at reach
  rw [List.length_drop] at window
  have boundary := follows.log.boundary
  omega

theorem stepDown (follows : node.Follows history) (term : Nat) :
    (node.stepDown term).Follows history := by
  rcases node.stepDown_cases term with ⟨_, same⟩ | ⟨_, stepped⟩
  · exact same.symm ▸ follows
  · rw [stepped]
    exact follows.frame rfl rfl rfl

theorem observeLeader (follows : node.Follows history) (term : Nat) :
    (node.observeLeader term).Follows history := by
  rcases node.observeLeader_cases term with same | ⟨_, _, same⟩
  · exact same ▸ follows.stepDown term
  · rw [same]
    exact follows.frame rfl rfl rfl

theorem compact (follows : node.Follows history) {index term : Nat}
    (inside : index ≤ history.entries.length)
    (log : after.log = node.log.compactTo index term)
    (lastApplied : after.lastApplied = max node.lastApplied index)
    (commitIndex : after.commitIndex = max node.commitIndex index) : after.Follows history where
  log := log ▸ follows.log.compactTo term inside
  boundary := by
    rw [log, lastApplied, Log.snapshotIndex_compactTo]
    exact max_le_max_right index follows.boundary
  applied := by
    rw [lastApplied, commitIndex]
    exact max_le_max_right index follows.applied
  committed := by
    rw [log, commitIndex, Log.lastIndex_compactTo]
    exact max_le_max_right index follows.committed

theorem takeSnapshot (follows : node.Follows history) (data : Bytes) (saved : Bool) :
    (node.takeSnapshot data saved).Follows history := by
  rcases node.takeSnapshot_cases data saved with same | ⟨_, term, built⟩
  · exact same.symm ▸ follows
  · rw [built]
    exact follows.compact follows.lastApplied_le rfl (Nat.max_self _).symm
      (Nat.max_eq_left follows.applied).symm

theorem handleInstallSnapshot (follows : node.Follows history) {args : InstallSnapshotArgs}
    (inside : args.lastIncludedIndex ≤ history.entries.length) (saved : Bool) :
    (node.handleInstallSnapshot args saved).1.Follows history := by
  obtain ⟨relieved, before, outcome⟩ := node.handleInstallSnapshot_cases args saved
  have kept : relieved.Follows history := by
    cases before with
    | stale => exact follows.stepDown args.term
    | current => exact (follows.stepDown args.term).frame rfl rfl rfl
  rcases outcome with same | ⟨_, built⟩
  · exact same ▸ kept
  · rw [built]
    exact kept.compact inside rfl rfl rfl

theorem handleAppendEntries (follows : node.Follows history) {args : AppendEntriesArgs}
    (genuine : args.entries <+: history.entries.drop args.prevLogIndex) (now : Nat) :
    (node.handleAppendEntries now args).1.Follows history := by
  have contacted : Follows ((node.observeLeader args.term).contacted now args.leaderID) history :=
    (follows.observeLeader args.term).frame rfl rfl rfl
  rcases node.handleAppendEntries_cases now args with ⟨_, same, _⟩ |
    ⟨_, ⟨refused, _⟩ | ⟨agrees, accepted⟩⟩
  · exact same.symm ▸ follows
  · exact refused ▸ contacted
  · rw [accepted]
    have checked : ((node.observeLeader args.term).contacted now args.leaderID).prevConflict args =
      none := agrees
    generalize (node.observeLeader args.term).contacted now args.leaderID = reached
      at contacted checked
    obtain ⟨more, fresh, merged⟩ := contacted.log.mergeEntries genuine
      (prevLogIndex_le checked)
    obtain ⟨signal, received, built⟩ := reached.acceptEntries_eq args
    have longer : reached.log.lastIndex ≤ (reached.log.append more).lastIndex := by
      rw [Log.lastIndex_eq, Log.lastIndex_eq, Log.snapshotIndex_append, Log.rest_append,
        List.length_append]
      omega
    rw [built, merged]
    refine ⟨contacted.log.append fresh, contacted.boundary, ?_, ?_⟩
    · have applied := contacted.applied
      have committed := contacted.committed
      simp only [RaftNode.persist, RaftNode.write]
      split <;> omega
    · have committed := contacted.committed
      simp only [RaftNode.persist, RaftNode.write]
      split <;> omega

end Follows

end RaftNode

/-- What a node following the history leaves in its data directory. -/
structure Disk.Follows (disk : Disk) (history : History) : Prop where
  log : ∀ state, disk.state = some state → state.entries.Follows history ∧
    state.entries.snapshotIndex ≤ disk.covered
  inside : disk.covered ≤ history.entries.length

theorem Disk.Follows.boot {disk : Disk} (follows : disk.Follows history) (cfg : Config) :
    (boot cfg disk).Follows history := by
  obtain ⟨term, data, booted⟩ := boot_eq cfg disk
  have ⟨shown, behind⟩ : disk.log.Follows history ∧ disk.log.snapshotIndex ≤ disk.covered := by
    unfold Disk.log
    cases found : disk.state with
    | none => exact ⟨.new, Nat.zero_le _⟩
    | some state => exact follows.log state found
  rw [booted]
  refine ⟨shown.compactTo term follows.inside, ?_, Nat.le_refl _, ?_⟩
  · rw [Log.snapshotIndex_compactTo]
    exact Nat.max_le.mpr ⟨behind, Nat.le_refl _⟩
  · rw [Log.lastIndex_compactTo]
    exact Nat.le_max_right _ _

end RaftGo.Raft
