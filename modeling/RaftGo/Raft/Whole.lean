import RaftGo.Library.ConsensusSafety
import RaftGo.Library.Lists
import RaftGo.Raft.Terms

/-! Logs that have never been compacted: entry `k` stands at position `k`. On
such logs the merge loop of `HandleAppendEntries` is the graft of
`Library.Consensus`, and the index chosen by `maybeCommit` is held by a majority
of the peers. -/

namespace RaftGo.Raft

open Library Library.Consensus

instance : Stamped LogEntry := ⟨LogEntry.term⟩

@[simp] theorem stamp_entry (entry : LogEntry) : Stamped.stamp entry = entry.term := rfl

/-- Every entry carries its position, counted from one. -/
def Indexed (entries : List LogEntry) : Prop :=
  ∀ position entry, entries[position]? = some entry → entry.index = position + 1

theorem Indexed.nil : Indexed [] := by
  intro position entry found
  simp at found

theorem Indexed.nodup {entries : List LogEntry} (indexed : Indexed entries) : entries.Nodup := by
  rw [List.nodup_iff_getElem?_ne_getElem?]
  intro low high below inside same
  have found := List.getElem?_eq_getElem inside
  have first := indexed low _ (same.trans found)
  have second := indexed high _ found
  omega

theorem Indexed.of_initial {entries shorter : List LogEntry} (indexed : Indexed entries)
    (initial : shorter <+: entries) : Indexed shorter := by
  intro position entry found
  exact indexed position entry (getElem?_of_initial initial found)

theorem Indexed.snoc {entries : List LogEntry} {entry : LogEntry} (indexed : Indexed entries)
    (next : entry.index = entries.length + 1) : Indexed (entries ++ [entry]) := by
  intro position found lookup
  rcases getElem?_snoc_cases lookup with old | ⟨rfl, rfl⟩
  · exact indexed position found old
  · exact next

namespace Log

/-- A log without a snapshot. -/
def whole (entries : List LogEntry) : Log := ⟨{}, entries⟩

variable {entries : List LogEntry}

@[simp] theorem snapshotIndex_whole : (whole entries).snapshotIndex = 0 := rfl

@[simp] theorem rest_whole : (whole entries).rest = entries := rfl

@[simp] theorem lastIndex_whole : (whole entries).lastIndex = entries.length := by
  simp [lastIndex_eq]

theorem lastTerm_whole : (whole entries).lastTerm = lastStamp entries := by
  unfold lastTerm lastStamp whole
  cases entries.getLast? <;> rfl

theorem get_whole {index : Nat} (positive : 0 < index) :
    (whole entries).get index = entries[index - 1]?.getD {} := by
  have above : (whole entries).snapshotIndex < index := positive
  simpa using get_of_gt (whole entries) above

@[simp] theorem get_whole_zero : (whole entries).get 0 = {} :=
  get_snapshotIndex (whole entries)

theorem get_whole_of_found {position : Nat} {entry : LogEntry}
    (found : entries[position]? = some entry) : (whole entries).get (position + 1) = entry := by
  simp [get_whole, found]

theorem found_of_term {index : Nat} (stamped : ((whole entries).get index).term ≠ 0) :
    0 < index ∧ entries[index - 1]? = some ((whole entries).get index) := by
  have positive : 0 < index := by
    rcases Nat.eq_zero_or_pos index with rfl | positive
    · simp at stamped
    · exact positive
  refine ⟨positive, ?_⟩
  rw [get_whole positive] at stamped ⊢
  cases found : entries[index - 1]? with
  | none => simp [found] at stamped
  | some entry => rfl

theorem append_whole (more : List LogEntry) :
    (whole entries).append more = whole (entries ++ more) := rfl

theorem truncateFrom_whole {index : Nat} (positive : 0 < index) :
    (whole entries).truncateFrom index = whole (entries.take (index - 1)) := by
  have kept := sentinel_truncateFrom (whole entries) index
  have above : (whole entries).snapshotIndex < index := positive
  have cut := truncateFrom_rest (whole entries) above
  cases shortened : (whole entries).truncateFrom index with
  | mk sentinel rest =>
    rw [shortened] at kept cut
    simp only [snapshotIndex_whole, rest_whole, Nat.sub_zero] at cut
    simp only [whole] at kept ⊢
    rw [kept, cut]

theorem slice_whole {next : Nat} (positive : 0 < next) :
    (whole entries).slice next (entries.length + 1) = entries.drop (next - 1) := by
  have above : (whole entries).snapshotIndex < next := positive
  rw [slice_rest (whole entries) above]
  simp

end Log

section Merge

variable {current fresh : List LogEntry} {shared : Nat}

/-- The logs agree wherever they carry the same term, and the current one has no
entry without a term. -/
structure Mergeable (current fresh : List LogEntry) : Prop where
  agree : ∀ position one two, current[position]? = some one → fresh[position]? = some two →
    one.term = two.term → current.take (position + 1) = fresh.take (position + 1)
  stamped : ∀ entry ∈ current, entry.term ≠ 0
  indexed : Indexed fresh

/-- What the merge loop finds at the first position it has not compared yet. -/
theorem Mergeable.next (mergeable : Mergeable current fresh)
    (same : current.take shared = fresh.take shared) (inside : shared < fresh.length) :
    (current.length = shared ∧ ((Log.whole current).get (shared + 1)).term = 0) ∨
      ∃ existing, current[shared]? = some existing ∧
        (Log.whole current).get (shared + 1) = existing ∧ existing.term ≠ 0 := by
  cases found : current[shared]? with
  | none =>
    have short := List.getElem?_eq_none_iff.mp found
    have sizes := congrArg List.length same
    rw [List.length_take, List.length_take] at sizes
    exact .inl ⟨by omega, by simp [Log.get_whole, found]⟩
  | some existing =>
    exact .inr ⟨existing, rfl, Log.get_whole_of_found found,
      mergeable.stamped existing (List.mem_of_getElem? found)⟩

theorem graft_of_missing {position : Nat} {entry : LogEntry}
    (found : fresh[position]? = some entry) (missing : current[position]? ≠ some entry) :
    graft current fresh = fresh := by
  rw [graft, if_neg]
  intro initial
  exact missing (getElem?_of_initial initial found)

/-- On whole logs the merge loop grafts: entries that agree are kept, and from
the first difference on the sender's take over. -/
theorem mergeEntries_whole (mergeable : Mergeable current fresh)
    (same : current.take shared = fresh.take shared) (bounded : shared ≤ fresh.length) :
    (Log.whole current).mergeEntries (fresh.drop shared) = Log.whole (graft current fresh) := by
  induction remaining : fresh.length - shared generalizing shared with
  | zero =>
    have size : fresh.length ≤ shared := by omega
    have initial : fresh <+: current := by
      rw [← List.take_of_length_le size, ← same]
      exact List.take_prefix _ _
    rw [List.drop_of_length_le size, graft_of_initial initial]
    rfl
  | succ left ih =>
    have inside : shared < fresh.length := by omega
    have found : fresh[shared]? = some fresh[shared] := List.getElem?_eq_getElem inside
    have tail : fresh[shared] :: fresh.drop (shared + 1) = fresh.drop shared :=
      (List.drop_eq_getElem_cons inside).symm
    have index := mergeable.indexed _ _ found
    rw [← tail]
    simp only [Log.mergeEntries, index, Log.snapshotIndex_whole, Nat.add_eq_zero_iff,
      one_ne_zero, and_false, ↓reduceIte, Nat.le_zero]
    rcases mergeable.next same inside with ⟨short, empty⟩ | ⟨existing, held, here, stamped⟩
    · have missing : current[shared]? ≠ some fresh[shared] := by simp [short]
      rw [if_pos empty, graft_of_missing found missing, Log.append_whole, tail,
        ← List.take_of_length_le (i := shared) (l := current) (by omega), same,
        List.take_append_drop]
    · rw [here, if_neg stamped]
      split
      · rename_i differs
        have missing : current[shared]? ≠ some fresh[shared] := by
          rw [held]
          intro equal
          exact differs (congrArg LogEntry.term (Option.some.inj equal))
        rw [graft_of_missing found missing, Log.truncateFrom_whole (Nat.succ_pos _),
          Log.append_whole, Nat.succ_sub_one, tail, same, List.take_append_drop]
      · rename_i agrees
        exact ih (mergeable.agree _ _ _ held found (not_not.mp agrees)) (by omega) (by omega)

/-- The merge loop truncates only at an entry whose term differs from the sender's. -/
theorem truncation_whole (mergeable : Mergeable current fresh)
    (same : current.take shared = fresh.take shared) (bounded : shared ≤ fresh.length)
    {index : Nat} (truncates : (Log.whole current).truncation (fresh.drop shared) = some index) :
    0 < index ∧ ∃ one two, current[index - 1]? = some one ∧ fresh[index - 1]? = some two ∧
      one.term ≠ two.term := by
  induction remaining : fresh.length - shared generalizing shared with
  | zero =>
    rw [List.drop_of_length_le (by omega)] at truncates
    cases truncates
  | succ left ih =>
    have inside : shared < fresh.length := by omega
    have found : fresh[shared]? = some fresh[shared] := List.getElem?_eq_getElem inside
    have position := mergeable.indexed _ _ found
    rw [List.drop_eq_getElem_cons inside] at truncates
    simp only [Log.truncation, position, Log.snapshotIndex_whole, Nat.add_eq_zero_iff,
      one_ne_zero, and_false, ↓reduceIte, Nat.le_zero] at truncates
    rcases mergeable.next same inside with ⟨short, empty⟩ | ⟨existing, held, here, stamped⟩
    · rw [if_pos empty] at truncates
      cases truncates
    · rw [here, if_neg stamped] at truncates
      split at truncates
      · rename_i differs
        cases truncates
        exact ⟨Nat.succ_pos _, existing, fresh[shared], held, found, differs⟩
      · rename_i agrees
        exact ih (mergeable.agree _ _ _ held found (not_not.mp agrees)) (by omega) truncates
          (by omega)

end Merge

namespace RaftNode

variable {node : RaftNode}

theorem majority_sub_one_lt : node.majority - 1 <
    (node.log.lastIndex :: node.peers.map node.matchIndex.read).length := by
  rw [majority, List.length_cons, List.length_map]
  omega

/-- The index found by `maybeCommit` is the largest one reached by a majority of leader
and peers. -/
theorem le_quorumIndex_iff {index : Nat} : index ≤ node.quorumIndex ↔ node.majority ≤
    (node.log.lastIndex :: node.peers.map node.matchIndex.read).countP (index ≤ ·) := by
  have ordered := List.pairwise_insertionSort (· ≥ ·)
    (node.log.lastIndex :: node.peers.map node.matchIndex.read)
  have shuffled := List.perm_insertionSort (· ≥ ·)
    (node.log.lastIndex :: node.peers.map node.matchIndex.read)
  have found := List.getElem?_eq_getElem (shuffled.length_eq ▸ node.majority_sub_one_lt)
  have reached := congrArg (·.getD 0) found
  have counted := le_iff_lt_countP_of_descending ordered found index
  rw [shuffled.countP_eq] at counted
  rw [quorumIndex, reached, Option.getD_some, counted, majority]
  omega

/-- Counted among the peers alone one is missing: the leader itself. -/
theorem majority_le_filter {index : Nat} (reached : index ≤ node.quorumIndex) :
    node.majority ≤ (node.peers.filter fun peer =>
      index ≤ node.matchIndex.read peer).length + 1 := by
  have counted := le_quorumIndex_iff.mp reached
  rw [List.countP_cons, List.countP_map, List.countP_eq_length_filter] at counted
  refine counted.trans ?_
  simp only [Function.comp_def]
  split <;> omega

theorem lookup_foldl_set (value : Nat) {peers : List String} {key : String} (member : key ∈ peers)
    (table : Table Nat) :
    peers.foldl (fun table peer => table.set peer value) table key = some value := by
  induction peers using List.reverseRecOn with
  | nil => cases member
  | append_singleton earlier last ih =>
    rw [List.foldl_append, List.foldl_cons, List.foldl_nil, Table.set]
    by_cases same : key = last
    · rw [same, Function.update_self]
    · rw [Function.update_of_ne same]
      exact ih ((List.mem_append.mp member).resolve_right (by simpa using same))

theorem read_foldl_set (value : Nat) {peers : List String} {key : String} (member : key ∈ peers)
    (table : Table Nat) :
    (peers.foldl (fun table peer => table.set peer value) table).read key = value := by
  rw [Table.read, lookup_foldl_set value member, Option.getD_some]

theorem peers_advanceMatch (peer : String) (newMatch : Nat) :
    (node.advanceMatch peer newMatch).peers = node.peers := by
  unfold advanceMatch
  dsimp only
  split <;> rfl

theorem state_advanceMatch (peer : String) (newMatch : Nat) :
    (node.advanceMatch peer newMatch).state = node.state := by
  unfold advanceMatch
  dsimp only
  split <;> rfl

theorem matchIndex_becomeLeader {peer : String} (member : peer ∈ node.peers) {now : Nat} :
    (node.becomeLeader now).matchIndex.read peer = 0 :=
  read_foldl_set 0 member node.matchIndex

/-- The disk holds the log of the node; an empty one stands for an empty log. -/
def Stored (node : RaftNode) : Prop :=
  match node.disk.state with
  | none => node.log = .new
  | some state => state.entries = node.log

theorem stored_persist (node : RaftNode) : node.persist.Stored := rfl

/-- A restart without a snapshot file comes back with the persisted log and
nothing committed. -/
theorem boot_unsnapshotted (cfg : Config) {disk : Disk} (bare : disk.snapshot = none) :
    (boot cfg disk).log = disk.log ∧
      (boot cfg disk).commitIndex = 0 := by
  obtain ⟨term, data, booted⟩ := boot_eq cfg disk
  have uncovered : disk.covered = 0 := by simp [Disk.covered, bare]
  rw [booted, uncovered]
  exact ⟨by simp [Log.compactTo], rfl⟩

theorem stored_boot (stored : node.Stored) (cfg : Config) {disk : Disk}
    (bare : disk.snapshot = none) (same : disk.state = node.disk.state) :
    (boot cfg disk).log = node.log := by
  rw [(boot_unsnapshotted cfg bare).1, Disk.log, same]
  unfold Stored at stored
  cases written : node.disk.state <;> simp_all

/-- Nothing that elections or replication depend on has changed. -/
structure Retains (node after : RaftNode) : Prop where
  currentTerm : after.currentTerm = node.currentTerm
  votedFor : after.votedFor = node.votedFor
  state : after.state = node.state
  log : after.log = node.log
  commitIndex : after.commitIndex = node.commitIndex
  matchIndex : after.matchIndex = node.matchIndex
  disk : after.disk = node.disk

theorem Retains.keepsVote {after : RaftNode} (retains : node.Retains after) :
    node.KeepsVote after :=
  .frame retains.currentTerm retains.votedFor (by rw [retains.disk]) (.inl retains.state)

end RaftNode

end RaftGo.Raft
