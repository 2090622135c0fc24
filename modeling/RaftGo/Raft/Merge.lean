import Mathlib.Order.Bounds.Basic
import RaftGo.Raft.WellFormed

/-! `HandleAppendEntries` on any well-formed log: the merge loop goes on from the first
entry of the request that the log does not have. Requests of one leader, in any order and
any number of times, only ever bring the log closer to the leader's. -/

namespace RaftGo.Raft

namespace Log

variable {log : Log} {prev index : Nat} {entry : LogEntry} {entries rest : List LogEntry}

/-- The request has an entry for an index behind the marker at which the log has none, or
one of another term. -/
def Conflicts (log : Log) (prev : Nat) (entries : List LogEntry) (index : Nat) : Prop :=
  log.snapshotIndex < index ∧ prev < index ∧ index ≤ prev + entries.length ∧
    ∀ mine ∈ log.rest, ∀ theirs ∈ entries, mine.index = index → theirs.index = index →
      mine.term ≠ theirs.term

/-- The log below an index, and the entries of the request from it on. -/
def splice (log : Log) (entries : List LogEntry) (index : Nat) : Log :=
  { log with rest := log.rest.filter (·.index < index) ++ entries.filter (index ≤ ·.index) }

theorem conflicts_cons (placed : PlacedFrom (prev + 1) (entry :: rest)) :
    log.Conflicts prev (entry :: rest) index ↔
      (index = prev + 1 ∧ log.snapshotIndex < index ∧
        ∀ mine ∈ log.rest, mine.index = index → mine.term ≠ entry.term) ∨
      log.Conflicts (prev + 1) rest index := by
  have first := placed.head
  constructor
  · rintro ⟨above, beyond, inside, differ⟩
    rw [List.length_cons] at inside
    rcases Nat.eq_or_lt_of_le (Nat.succ_le_of_lt beyond) with rfl | later
    · exact .inl ⟨rfl, above, fun mine member same =>
        differ mine member entry List.mem_cons_self same first⟩
    · exact .inr ⟨above, later, by omega, fun mine member theirs sent =>
        differ mine member theirs (List.mem_cons_of_mem _ sent)⟩
  · rintro (⟨rfl, above, differ⟩ | ⟨above, beyond, inside, differ⟩)
    · refine ⟨above, Nat.lt_succ_self _, by simp, fun mine member theirs sent same index => ?_⟩
      rcases List.mem_cons.mp sent with rfl | later
      · exact differ mine member same
      · have behind := (placed.tail.getElem?_of_mem later).1
        omega
    · refine ⟨above, by omega, by rw [List.length_cons]; omega,
        fun mine member theirs sent same index => ?_⟩
      rcases List.mem_cons.mp sent with rfl | later
      · omega
      · exact differ mine member theirs later same index

theorem splice_cons (below : entry.index < index) :
    log.splice (entry :: rest) index = log.splice rest index := by
  rw [splice, splice, List.filter_cons_of_neg (by simpa using below)]

theorem splice_rest (formed : log.WellFormed) (placed : PlacedFrom (prev + 1) entries)
    (index : Nat) : log.splice entries index = { log with
      rest := log.rest.take (index - (log.snapshotIndex + 1)) ++
        entries.drop (index - (prev + 1)) } := by
  rw [splice, (placed_rest formed.placed).filter_eq_take, placed.filter_eq_drop]

/-- Where there is no conflict, the log has the entry of the request. -/
theorem shared_of_not_conflicts (above : log.snapshotIndex < index) (beyond : prev < index)
    (inside : index ≤ prev + entries.length) (agrees : ¬log.Conflicts prev entries index) :
    ∃ mine ∈ log.rest, ∃ theirs ∈ entries,
      mine.index = index ∧ theirs.index = index ∧ mine.term = theirs.term := by
  by_contra differ
  refine agrees ⟨above, beyond, inside, fun mine member theirs sent one two same => ?_⟩
  exact differ ⟨mine, member, theirs, sent, one, two, same⟩

/-- What merging makes of a log: it is spliced at the first conflict, or there is none and
it stays. -/
inductive Merged (log : Log) (prev : Nat) (entries : List LogEntry) : Log → Prop where
  | splices (index : Nat) (least : IsLeast {index | log.Conflicts prev entries index} index)
      (bound : index ≤ log.lastIndex + 1) : Merged log prev entries (log.splice entries index)
  | keeps (agrees : ∀ index, ¬log.Conflicts prev entries index) : Merged log prev entries log

theorem Merged.cons {after : Log} (placed : PlacedFrom (prev + 1) (entry :: rest))
    (agrees : ¬(log.snapshotIndex < prev + 1 ∧
      ∀ mine ∈ log.rest, mine.index = prev + 1 → mine.term ≠ entry.term))
    (merged : log.Merged (prev + 1) rest after) : log.Merged prev (entry :: rest) after := by
  have first := placed.head
  have same (index : Nat) : log.Conflicts prev (entry :: rest) index ↔
      log.Conflicts (prev + 1) rest index := by
    rw [conflicts_cons placed, or_iff_right]
    rintro ⟨rfl, conflict⟩
    exact agrees conflict
  cases merged with
  | splices index least bound =>
    have beyond := least.1.2.1
    rw [← splice_cons (show entry.index < index by omega)]
    exact .splices index (by simpa only [same] using least) bound
  | keeps agrees => exact .keeps fun index => (same index).not.mpr (agrees index)

theorem Merged.here (formed : log.WellFormed) (placed : PlacedFrom (prev + 1) (entry :: rest))
    (reach : prev ≤ log.lastIndex) (above : log.snapshotIndex < prev + 1)
    (differ : ∀ mine ∈ log.rest, mine.index = prev + 1 → mine.term ≠ entry.term) :
    log.Merged prev (entry :: rest)
      { log with rest := log.rest.take (prev - log.snapshotIndex) ++ entry :: rest } := by
  have least : IsLeast {index | log.Conflicts prev (entry :: rest) index} (prev + 1) :=
    ⟨(conflicts_cons placed).mpr (.inl ⟨rfl, above, differ⟩),
      fun index conflict => Nat.succ_le_of_lt conflict.2.1⟩
  have spliced := splice_rest formed placed (prev + 1)
  rw [Nat.add_sub_add_right, Nat.sub_self, List.drop_zero] at spliced
  exact spliced ▸ .splices (prev + 1) least (Nat.succ_le_succ reach)

theorem merged_mergeEntries (formed : log.WellFormed) (placed : PlacedFrom (prev + 1) entries)
    (reach : prev ≤ log.lastIndex) : log.Merged prev entries (log.mergeEntries entries) := by
  induction entries generalizing prev with
  | nil =>
    refine .keeps ?_
    rintro index ⟨_, beyond, inside, _⟩
    rw [List.length_nil] at inside
    omega
  | cons entry rest ih =>
    rw [mergeEntries, placed.head]
    by_cases covered : prev + 1 ≤ log.snapshotIndex
    · have inside : prev + 1 ≤ log.lastIndex := by
        rw [lastIndex_eq]
        exact Nat.le_add_right_of_le covered
      rw [if_pos covered]
      exact .cons placed (fun conflict => Nat.not_lt.mpr covered conflict.1) (ih placed.tail inside)
    · rw [if_neg covered]
      dsimp only
      have above : log.snapshotIndex < prev + 1 := Nat.lt_of_not_le covered
      rcases formed.get_cases above with ⟨beyond, empty, missing⟩ | ⟨inside, stamped, only⟩
      · rw [if_pos (by rw [empty]), append]
        rw [lastIndex_eq] at beyond
        have spliced := Merged.here formed placed reach above
          fun mine member same => absurd same (missing mine member)
        rwa [List.take_of_length_le (by omega)] at spliced
      · rw [if_neg (Nat.one_le_iff_ne_zero.mp stamped)]
        split
        · rename_i differs
          have cut := log.truncateFrom_rest above
          rw [Nat.sub_right_comm, Nat.add_sub_cancel] at cut
          rw [append, cut, log.sentinel_truncateFrom]
          refine .here formed placed reach above fun mine member same => ?_
          rw [(only mine).mp ⟨member, same⟩]
          exact differs
        · rename_i agrees
          refine .cons placed (fun conflict => ?_) (ih placed.tail inside)
          obtain ⟨member, index⟩ := (only _).mpr rfl
          exact conflict.2 _ member index (not_not.mp agrees)

theorem Merged.wellFormed {after : Log} (formed : log.WellFormed)
    (placed : PlacedFrom (prev + 1) entries) (stamped : ∀ entry ∈ entries, 1 ≤ entry.term)
    (merged : log.Merged prev entries after) : after.WellFormed := by
  cases merged with
  | keeps agrees => exact formed
  | splices index least bound =>
    obtain ⟨above, beyond, _⟩ := least.1
    rw [lastIndex_eq] at bound
    rw [splice_rest formed placed]
    refine ⟨placed_entries (((placed_rest formed.placed).take _).append ?_), ?_⟩
    · have later := placed.drop (index - (prev + 1))
      have position : prev + 1 + (index - (prev + 1)) = log.snapshotIndex + 1 +
          (log.rest.take (index - (log.snapshotIndex + 1))).length := by
        rw [List.length_take]
        omega
      exact position ▸ later
    · intro entry member
      rcases List.mem_append.mp member with old | sent
      · exact formed.stamped entry (List.mem_of_mem_take old)
      · exact stamped entry (List.mem_of_mem_drop sent)

theorem Merged.snapshotIndex_eq {after : Log} (merged : log.Merged prev entries after) :
    after.snapshotIndex = log.snapshotIndex := by
  cases merged <;> rfl

theorem Merged.kept {after : Log} (merged : log.Merged prev entries after)
    (member : entry ∈ log.rest) (before : entry.index ≤ prev) : entry ∈ after.rest := by
  cases merged with
  | keeps agrees => exact member
  | splices index least bound =>
    have beyond := least.1.2.1
    exact List.mem_append_left _
      (List.mem_filter.mpr ⟨member, decide_eq_true (Nat.lt_of_le_of_lt before beyond)⟩)

/-- An entry of the request is in the merged log, or the log had one of its index and term. -/
theorem Merged.holds {after : Log} (placed : PlacedFrom (prev + 1) entries)
    (merged : log.Merged prev entries after) (sent : entry ∈ entries)
    (above : log.snapshotIndex < entry.index) :
    entry ∈ after.rest ∨ ∃ mine ∈ log.rest, mine ∈ after.rest ∧ mine.index = entry.index ∧
      mine.term = entry.term := by
  obtain ⟨beyond, found⟩ := placed.getElem?_of_mem sent
  have inside := (List.getElem?_eq_some_iff.mp found).1
  have held (agrees : ¬log.Conflicts prev entries entry.index) :
      ∃ mine ∈ log.rest, mine.index = entry.index ∧ mine.term = entry.term := by
    obtain ⟨mine, member, theirs, other, one, two, same⟩ :=
      shared_of_not_conflicts above beyond (by omega) agrees
    have twice := (placed.getElem?_of_mem other).2
    rw [two, found] at twice
    exact ⟨mine, member, one, Option.some.inj twice ▸ same⟩
  cases merged with
  | keeps agrees =>
    obtain ⟨mine, member, same⟩ := held (agrees entry.index)
    exact .inr ⟨mine, member, member, same⟩
  | splices index least bound =>
    rcases Nat.lt_or_ge entry.index index with before | behind
    · obtain ⟨mine, member, same, term⟩ := held fun earlier =>
        Nat.not_le.mpr before (least.2 earlier)
      exact .inr ⟨mine, member, List.mem_append_left _
        (List.mem_filter.mpr ⟨member, decide_eq_true (same ▸ before)⟩), same, term⟩
    · exact .inl (List.mem_append_right _ (List.mem_filter.mpr ⟨sent, decide_eq_true behind⟩))

/-- A merged log reaches the last entry of the request. -/
theorem Merged.reach {after : Log} (formed : log.WellFormed)
    (placed : PlacedFrom (prev + 1) entries) (reach : prev ≤ log.lastIndex)
    (merged : log.Merged prev entries after) : prev + entries.length ≤ after.lastIndex := by
  cases merged with
  | splices index least bound =>
    obtain ⟨above, beyond, inside, _⟩ := least.1
    rw [lastIndex_eq] at bound
    rw [splice_rest formed placed, lastIndex_eq, List.length_append, List.length_take,
      List.length_drop]
    simp only [snapshotIndex] at *
    omega
  | keeps agrees =>
    by_contra short
    have marker := log.lastIndex_eq
    refine agrees (prev + entries.length) ⟨by omega, by omega, Nat.le_refl _, ?_⟩
    intro mine member theirs sent same
    have inside := (placed_rest formed.placed).getElem?_of_mem member
    have bound := (List.getElem?_eq_some_iff.mp inside.2).1
    omega

end Log

namespace RaftNode

variable {node : RaftNode} {args : AppendEntriesArgs}

theorem merged_handleAppendEntries (formed : node.log.WellFormed)
    (placed : PlacedFrom (args.prevLogIndex + 1) args.entries)
    (current : node.currentTerm ≤ args.term) (agrees : node.prevConflict args = none) (now : Nat) :
    node.log.Merged args.prevLogIndex args.entries (node.handleAppendEntries now args).1.log := by
  have same : ((node.observeLeader args.term).contacted now args.leaderID).log = node.log :=
    node.log_observeLeader args.term
  rw [handleAppendEntries_accepted current agrees, log_acceptEntries, same]
  exact Log.merged_mergeEntries formed placed (prevLogIndex_le agrees)

/-- `HandleAppendEntries` accepts a request that starts at index zero or at an entry it
has, and then takes over the entries from the first one it does not have. A refused
request changes nothing. -/
theorem append_entries_merge (formed : node.log.WellFormed)
    (current : node.currentTerm ≤ args.term)
    (placed : PlacedFrom (args.prevLogIndex + 1) args.entries)
    (stamped : ∀ entry ∈ args.entries, 1 ≤ entry.term) (now : Nat) :
    let outcome := node.handleAppendEntries now args
    (outcome.2.success = true ↔ args.prevLogIndex = 0 ∨ ∃ entry ∈ node.log.entries,
      entry.index = args.prevLogIndex ∧ entry.term ≠ 0 ∧ entry.term = args.prevLogTerm) ∧
    (outcome.2.success = true →
      (∀ index, IsLeast {index | node.log.Conflicts args.prevLogIndex args.entries index} index →
        outcome.1.log = node.log.splice args.entries index) ∧
      ((∀ index, ¬node.log.Conflicts args.prevLogIndex args.entries index) →
        outcome.1.log = node.log)) ∧
    (outcome.2.success = false →
      outcome.1.log = node.log ∧ outcome.1.commitIndex = node.commitIndex) ∧
    outcome.1.log.WellFormed := by
  intro outcome
  have accepts : outcome.2.success = true ↔ node.prevConflict args = none :=
    success_handleAppendEntries current now
  have checked : node.prevConflict args = none ↔ args.prevLogIndex = 0 ∨
      ∃ entry ∈ node.log.entries, entry.index = args.prevLogIndex ∧ entry.term ≠ 0 ∧
        entry.term = args.prevLogTerm := by
    rw [prevConflict_eq_none, Nat.pos_iff_ne_zero, ← or_iff_not_imp_left]
    refine or_congr_right ?_
    constructor
    · rintro ⟨present, same⟩
      obtain ⟨entry, member, index, term⟩ := (Log.get_term_iff formed.placed present).mp rfl
      exact ⟨entry, member, index, term ▸ present, term.trans same⟩
    · rintro ⟨entry, member, index, present, same⟩
      have term := (Log.get_term_iff formed.placed present).mpr ⟨entry, member, index, rfl⟩
      exact ⟨term ▸ present, term.trans same⟩
  have refused (failed : outcome.2.success = false) :
      outcome.1.log = node.log ∧ outcome.1.commitIndex = node.commitIndex := by
    cases conflict : node.prevConflict args with
    | none => cases failed.symm.trans (accepts.mpr conflict)
    | some hint =>
      have same : outcome.1 = (node.observeLeader args.term).contacted now args.leaderID :=
        congrArg Prod.fst (handleAppendEntries_rejected current conflict now)
      rw [same]
      exact ⟨node.log_observeLeader args.term, node.commitIndex_observeLeader args.term⟩
  refine ⟨accepts.trans checked, fun success => ?_, refused, ?_⟩
  · have merged : node.log.Merged args.prevLogIndex args.entries outcome.1.log :=
      merged_handleAppendEntries formed placed current (accepts.mp success) now
    generalize outcome.1.log = after at merged
    cases merged with
    | splices first least bound =>
      exact ⟨fun index other => by rw [other.unique least],
        fun agrees => absurd least.1 (agrees first)⟩
    | keeps agrees => exact ⟨fun index least => absurd least.1 (agrees index), fun _ => rfl⟩
  · cases success : outcome.2.success with
    | true =>
      exact (merged_handleAppendEntries formed placed current (accepts.mp success) now).wellFormed
        formed placed stamped
    | false => exact (refused success).1.symm ▸ formed

/-- The request of a leader of term 2 that has only the first entry of `lagging`. -/
def replacing : AppendEntriesArgs where
  term := 2
  leaderID := "node2"
  prevLogIndex := 1
  prevLogTerm := 1
  entries := [{ term := 2, index := 2 }]
  leaderCommit := 0

/-- That leader, when its log goes on with these entries. -/
def replacer (entries : List LogEntry) : RaftNode :=
  { newRaftNode { id := "node2", peers := ["node1:7001", "node3:7001"] } with
    currentTerm := 2
    log := ⟨{}, { term := 1, index := 1 } :: entries⟩
    nextIndex := Table.set (fun _ => none) "node1:7001" 2 }

theorem append_entries_merge_lagging :
    (lagging.handleAppendEntries 0 replacing).2.success = true ∧
      (lagging.handleAppendEntries 0 replacing).1.log =
        ⟨{}, [{ term := 1, index := 1 }, { term := 2, index := 2 }]⟩ := by
  obtain ⟨accepts, merges, _⟩ := @append_entries_merge lagging replacing
    ⟨lagging_placed, by decide⟩ (by decide) (.cons rfl .nil) (by decide) 0
  have success := accepts.mpr (.inr ⟨{ term := 1, index := 1 }, by decide, rfl, by decide, rfl⟩)
  have least : IsLeast {index | lagging.log.Conflicts 1 replacing.entries index} 2 :=
    ⟨⟨by decide, by decide, by decide, by decide⟩, fun index conflict => conflict.2.1⟩
  exact ⟨success, (merges success).1 2 least⟩

end RaftNode

end RaftGo.Raft
