import Mathlib.Order.Monotone.Basic
import RaftGo.Raft.Compacted
import RaftGo.Raft.Merge

/-! The `AppendEntries` requests of one leader in one term, in any order and any number of
times. The leader's log only grows meanwhile, and a follower that has processed any of
its requests never agrees with it on less than before. -/

namespace RaftGo.Raft

open Library

variable {written : List LogEntry} {log after : Log} {index bound : Nat}

/-- A log the leader of `written` has had: a first part of it, perhaps compacted. -/
def Version (written : List LogEntry) (log : Log) : Prop :=
  ∃ count index, index ≤ count ∧ count ≤ written.length ∧
    log = (Log.whole (written.take count)).compactTo index ((Log.whole written).get index).term

/-- The follower's marker stands for an entry of the leader's log, and an entry of the same
index and term makes the logs the same up to it. What is compacted counts as the same. -/
structure Matches (written : List LogEntry) (log : Log) : Prop where
  boundary : log.snapshotIndex ≤ written.length
  marker : 0 < log.snapshotIndex →
    ((Log.whole written).get log.snapshotIndex).term = log.snapshotTerm
  matching : ∀ position mine theirs, log.rest[position]? = some mine →
    written[log.snapshotIndex + position]? = some theirs → mine.term = theirs.term →
      log.rest.take (position + 1) = (written.drop log.snapshotIndex).take (position + 1)

/-- Up to where a follower agrees with the leader. -/
def agreement (written : List LogEntry) (log : Log) : Nat :=
  log.snapshotIndex + sharedLength log.rest (written.drop log.snapshotIndex)

/-- A request the leader of a term builds for a peer, whatever its `nextIndex`: where the
entries it needs are compacted, a snapshot goes out instead. -/
def Requests (written : List LogEntry) (term : Nat) (args : AppendEntriesArgs) : Prop :=
  ∃ (leader : RaftNode) (peer : String), Version written leader.log ∧
    leader.currentTerm = term ∧ leader.replicateTo peer = .append peer term args

theorem le_agreement_iff : bound ≤ agreement written log ↔ bound ≤ log.snapshotIndex ∨
    (bound ≤ log.lastIndex ∧ bound ≤ written.length ∧
      log.rest.take (bound - log.snapshotIndex) =
        (written.drop log.snapshotIndex).take (bound - log.snapshotIndex)) := by
  rw [agreement, ← Nat.sub_le_iff_le_add', le_sharedLength_iff, Log.lastIndex_eq, List.length_drop]
  rcases Nat.le_total bound log.snapshotIndex with covered | above
  · simp [covered]
  · constructor
    · rintro ⟨mine, theirs, same⟩
      rcases Nat.eq_or_lt_of_le above with rfl | strict
      · exact .inl (Nat.le_refl _)
      · exact .inr ⟨by omega, by omega, same⟩
    · rintro (covered | ⟨mine, theirs, same⟩)
      · simp [Nat.le_antisymm covered above]
      · exact ⟨by omega, by omega, same⟩

/-- The request holds what follows `PrevLogIndex` in a first part of the leader's log, or it
starts beyond that and carries no term. -/
theorem Requests.content {term : Nat} {args : AppendEntriesArgs}
    (requests : Requests written term args) : args.term = term ∧
      ((∃ count, args.prevLogIndex ≤ count ∧ count ≤ written.length ∧
          args.entries = (written.take count).drop args.prevLogIndex ∧
          (0 < args.prevLogIndex →
            ((Log.whole written).get args.prevLogIndex).term = args.prevLogTerm)) ∨
        0 < args.prevLogIndex ∧ args.prevLogTerm = 0) := by
  obtain ⟨leader, peer, ⟨count, index, inside, within, version⟩, rfl, sent⟩ := requests
  unfold RaftNode.replicateTo at sent
  split at sent
  · cases sent
  · rename_i above
    cases sent
    have size : (written.take count).length = count := List.length_take_of_le within
    have reach : leader.log.lastIndex = count := by
      rw [version, Log.lastIndex_compacted (by rw [size]; exact inside), size]
    rw [version, Log.snapshotIndex_compacted] at above
    -- up to where the version reaches it reads as the final log
    have read {position : Nat} (bounded : position ≤ count) :
        ((Log.whole (written.take count)).get position).term =
          ((Log.whole written).get position).term := by
      rcases Nat.eq_zero_or_pos position with rfl | positive
      · rfl
      · rw [Log.get_whole positive, Log.get_whole positive,
          List.getElem?_take_of_lt (by omega)]
    refine ⟨rfl, ?_⟩
    simp only [RaftNode.buildArgsLocked]
    rcases Nat.lt_or_ge count (leader.nextIndex.read peer - 1) with beyond | bounded
    · refine .inr ⟨Nat.zero_lt_of_lt beyond, ?_⟩
      rw [leader.log.get_of_lastIndex_lt (by omega)]
    · refine .inl ⟨count, bounded, within, ?_, fun _ => ?_⟩
      · rw [version]
        exact Log.slice_compacted (by omega)
      · rw [version, Log.get_term_compacted (by omega) fun _ => read inside, read bounded]

namespace Matches

theorem le_agreement (matching : Matches written log) (above : log.snapshotIndex < index)
    {mine theirs : LogEntry} (held : log.rest[index - log.snapshotIndex - 1]? = some mine)
    (found : written[index - 1]? = some theirs) (same : mine.term = theirs.term) :
    index ≤ agreement written log := by
  have inside := (List.getElem?_eq_some_iff.mp held).1
  have within := (List.getElem?_eq_some_iff.mp found).1
  have position : log.snapshotIndex + (index - log.snapshotIndex - 1) = index - 1 := by omega
  have length : index - log.snapshotIndex - 1 + 1 = index - log.snapshotIndex := by omega
  have agreed := matching.matching _ mine theirs held (by rwa [position]) same
  rw [length] at agreed
  refine le_agreement_iff.mpr (.inr ⟨?_, by omega, agreed⟩)
  rw [Log.lastIndex_eq]
  omega

section Merge

variable {count prev : Nat}

theorem of_initial (marker : 0 < log.snapshotIndex →
      ((Log.whole written).get log.snapshotIndex).term = log.snapshotTerm)
    (boundary : log.snapshotIndex ≤ count) (within : count ≤ written.length)
    (rest : log.rest = (written.take count).drop log.snapshotIndex) :
    Matches written log ∧ count ≤ agreement written log := by
  rw [List.drop_take] at rest
  have size : log.rest.length = count - log.snapshotIndex := by
    rw [rest, List.length_take, List.length_drop]
    omega
  refine ⟨⟨boundary.trans within, marker, ?_⟩, ?_⟩
  · intro position mine theirs held _ _
    have inside := (List.getElem?_eq_some_iff.mp held).1
    rw [rest, List.take_take, Nat.min_eq_left (by omega)]
  · refine le_agreement_iff.mpr (.inr ⟨?_, within, ?_⟩)
    · rw [Log.lastIndex_eq]
      omega
    · rw [rest, List.take_take, Nat.min_self]

/-- Where a request of the leader finds no conflict, the logs agree. -/
theorem le_agreement_of_agrees (matching : Matches written log) (formed : log.WellFormed)
    (placed : PlacedFrom 1 written) (within : count ≤ written.length)
    (above : log.snapshotIndex < index) (beyond : prev < index) (bounded : index ≤ count)
    (agrees : ¬log.Conflicts prev ((written.take count).drop prev) index) :
    index ≤ agreement written log := by
  have size : ((written.take count).drop prev).length = count - prev := by
    rw [List.length_drop, List.length_take_of_le within]
  obtain ⟨mine, member, theirs, sent, one, rfl, same⟩ :=
    Log.shared_of_not_conflicts above beyond (by omega) agrees
  have held := (Log.mem_rest_iff formed.placed above).mp ⟨member, one⟩
  have found := (placed.getElem?_of_mem (List.mem_of_mem_take (List.mem_of_mem_drop sent))).2
  exact matching.le_agreement above held found same

theorem agreement_lt_of_conflicts (formed : log.WellFormed) (within : count ≤ written.length)
    (conflict : log.Conflicts prev ((written.take count).drop prev) index) :
    agreement written log < index := by
  obtain ⟨above, beyond, bounded, differ⟩ := conflict
  rw [List.length_drop, List.length_take_of_le within] at bounded
  by_contra agreed
  rcases le_agreement_iff.mp (Nat.le_of_not_lt agreed) with covered | ⟨inside, _, same⟩
  · omega
  · rw [Log.lastIndex_eq] at inside
    have held := List.getElem?_eq_getElem
      (show index - log.snapshotIndex - 1 < log.rest.length by omega)
    have found := congrArg (·[index - log.snapshotIndex - 1]?) same
    have position : log.snapshotIndex + (index - log.snapshotIndex - 1) =
        prev + (index - prev - 1) := by omega
    rw [List.getElem?_take_of_lt (by omega), List.getElem?_take_of_lt (by omega), held,
      List.getElem?_drop, position] at found
    obtain ⟨member, carried⟩ := (Log.mem_rest_iff formed.placed above).mpr held
    have sent : log.rest[index - log.snapshotIndex - 1] ∈ (written.take count).drop prev := by
      refine List.mem_of_getElem? (i := index - prev - 1) ?_
      rw [List.getElem?_drop, List.getElem?_take_of_lt (by omega), found]
    exact differ _ member _ sent carried carried rfl

theorem merged (matching : Matches written log) (formed : log.WellFormed)
    (placed : PlacedFrom 1 written) (bounded : prev ≤ count) (within : count ≤ written.length)
    (agreed : prev ≤ agreement written log)
    (merged : log.Merged prev ((written.take count).drop prev) after) :
    Matches written after ∧ agreement written log ≤ agreement written after ∧
      count ≤ agreement written after := by
  have covered : log.snapshotIndex ≤ agreement written log := Nat.le_add_right _ _
  cases merged with
  | keeps agrees =>
    refine ⟨matching, Nat.le_refl _, ?_⟩
    rcases Nat.lt_or_ge log.snapshotIndex count with above | below
    · rcases bounded.eq_or_lt with rfl | beyond
      · exact agreed
      · exact matching.le_agreement_of_agrees formed placed within above beyond (Nat.le_refl _)
          (agrees count)
    · exact below.trans covered
  | splices index least bound =>
    obtain ⟨above, beyond, inside, _⟩ := least.1
    rw [List.length_drop, List.length_take_of_le within] at inside
    have short := agreement_lt_of_conflicts formed within least.1
    -- below the first conflict the logs agree
    have below : index - 1 ≤ agreement written log := by
      rcases Nat.eq_or_lt_of_le (Nat.le_sub_one_of_lt above) with same | above'
      · omega
      · rcases Nat.eq_or_lt_of_le (Nat.le_sub_one_of_lt beyond) with same | beyond'
        · omega
        · refine matching.le_agreement_of_agrees formed placed within above' beyond' (by omega) ?_
          intro earlier
          have first := least.2 earlier
          omega
    have kept : log.rest.take (index - (log.snapshotIndex + 1)) =
        (written.drop log.snapshotIndex).take (index - (log.snapshotIndex + 1)) := by
      rcases le_agreement_iff.mp below with covered | ⟨_, _, same⟩
      · have none : index - (log.snapshotIndex + 1) = 0 := by omega
        rw [none, List.take_zero, List.take_zero]
      · rwa [Nat.sub_right_comm, Nat.sub_sub] at same
    have spliced : log.splice ((written.take count).drop prev) index =
        { log with rest := (written.take count).drop log.snapshotIndex } := by
      have shift : 1 + prev = prev + 1 := Nat.add_comm 1 prev
      have rest : (written.take count).drop (prev + (index - (prev + 1))) =
          ((written.take count).drop log.snapshotIndex).drop (index - (log.snapshotIndex + 1)) := by
        rw [List.drop_drop]
        congr 1
        omega
      have start : (written.drop log.snapshotIndex).take (index - (log.snapshotIndex + 1)) =
          ((written.take count).drop log.snapshotIndex).take
            (index - (log.snapshotIndex + 1)) := by
        rw [List.drop_take, List.take_take, Nat.min_eq_left (by omega)]
      rw [Log.splice_rest formed (shift ▸ (placed.take count).drop prev), kept, List.drop_drop, rest,
        start, List.take_append_drop]
    have longer : Matches written { log with rest := (written.take count).drop log.snapshotIndex } ∧
        count ≤ agreement written
          { log with rest := (written.take count).drop log.snapshotIndex } :=
      of_initial matching.marker (show log.snapshotIndex ≤ count by omega) within rfl
    rw [spliced]
    exact ⟨longer.1, by omega, longer.2⟩

end Merge

/-- Where the log has the entry a request of the leader starts at, the logs agree. -/
theorem le_agreement_of_read (matching : Matches written log) (positive : 0 < index)
    (present : (log.get index).term ≠ 0)
    (same : ((Log.whole written).get index).term = (log.get index).term) :
    index ≤ agreement written log := by
  have covered : log.snapshotIndex ≤ agreement written log := Nat.le_add_right _ _
  rcases Nat.lt_or_ge log.snapshotIndex index with above | below
  · rw [Log.get_whole positive, log.get_of_gt above] at same
    rw [log.get_of_gt above] at present
    cases held : log.rest[index - log.snapshotIndex - 1]? with
    | none => exact absurd (by rw [held]; rfl) present
    | some mine =>
      rw [held, Option.getD_some] at same present
      cases found : written[index - 1]? with
      | none => exact absurd (by rw [← same, found]; rfl) present
      | some theirs =>
        rw [found, Option.getD_some] at same
        exact matching.le_agreement above held found same.symm
  · exact below.trans covered

end Matches

namespace RaftNode

/-- A follower in the term of the leader whose log matches the leader's. -/
structure Attends (written : List LogEntry) (term : Nat) (node : RaftNode) : Prop where
  current : node.currentTerm = term
  formed : node.log.WellFormed
  matching : Matches written node.log

/-- The follower after the requests, each at its time on the clock. -/
def deliver (node : RaftNode) (messages : List (Nat × AppendEntriesArgs)) : RaftNode :=
  messages.foldl (fun node message => (node.handleAppendEntries message.1 message.2).1) node

section Requests

variable {term : Nat} {node : RaftNode} {args : AppendEntriesArgs}

/-- A request that is answered keeps the agreement, and one that is accepted extends it to
the end of the request. -/
theorem Attends.request (placed : PlacedFrom 1 written)
    (stamped : ∀ entry ∈ written, 1 ≤ entry.term) (attends : Attends written term node)
    (requests : Requests written term args) (now : Nat) :
    Attends written term (node.handleAppendEntries now args).1 ∧
    agreement written node.log ≤ agreement written (node.handleAppendEntries now args).1.log ∧
    ((node.handleAppendEntries now args).2.success = true → args.prevLogIndex +
      args.entries.length ≤ agreement written (node.handleAppendEntries now args).1.log) := by
  obtain ⟨current, formed, matching⟩ := attends
  obtain ⟨rfl, content⟩ := requests.content
  have due : node.currentTerm ≤ args.term := Nat.le_of_eq current
  have log := node.log_observeLeader args.term
  have reached := currentTerm_observeLeader due
  cases checked : node.prevConflict args with
  | some conflict =>
    rw [handleAppendEntries_rejected due checked]
    have same : ((node.observeLeader args.term).contacted now args.leaderID).log = node.log := log
    rw [same]
    exact ⟨⟨reached, same ▸ formed, same ▸ matching⟩, Nat.le_refl _, nofun⟩
  | none =>
    have start := prevConflict_eq_none.mp checked
    rcases content with ⟨count, bounded, within, sent, prev⟩ | ⟨positive, missing⟩
    · have shift : 1 + args.prevLogIndex = args.prevLogIndex + 1 := Nat.add_comm _ _
      have agreed : args.prevLogIndex ≤ agreement written node.log := by
        rcases Nat.eq_zero_or_pos args.prevLogIndex with first | positive
        · exact first ▸ Nat.zero_le _
        · obtain ⟨present, same⟩ := start positive
          exact matching.le_agreement_of_read positive present ((prev positive).trans same.symm)
      have contiguous : PlacedFrom (args.prevLogIndex + 1) args.entries :=
        sent ▸ shift ▸ (placed.take count).drop args.prevLogIndex
      have merged := merged_handleAppendEntries formed contiguous due checked now
      have carried : ∀ entry ∈ args.entries, 1 ≤ entry.term := by
        intro entry member
        rw [sent] at member
        exact stamped entry (List.mem_of_mem_take (List.mem_of_mem_drop member))
      have kept : (node.handleAppendEntries now args).1.currentTerm = args.term := by
        rw [handleAppendEntries_accepted due checked, currentTerm_acceptEntries]
        exact reached
      have formed' := merged.wellFormed formed contiguous carried
      rw [sent] at merged
      obtain ⟨matching', longer, reach⟩ := matching.merged formed placed bounded within agreed merged
      refine ⟨⟨kept, formed', matching'⟩, longer, fun _ => ?_⟩
      rw [sent, List.length_drop, List.length_take_of_le within]
      omega
    · obtain ⟨present, same⟩ := start positive
      exact absurd (same.trans missing) present

variable {messages : List (Nat × AppendEntriesArgs)}

theorem deliver_take_succ {k : Nat} {message : Nat × AppendEntriesArgs}
    (next : messages[k]? = some message) : node.deliver (messages.take (k + 1)) =
      ((node.deliver (messages.take k)).handleAppendEntries message.1 message.2).1 := by
  rw [List.take_add_one, next, deliver, List.foldl_append]
  rfl

theorem Attends.deliver (placed : PlacedFrom 1 written)
    (stamped : ∀ entry ∈ written, 1 ≤ entry.term) (attends : Attends written term node)
    (sent : ∀ message ∈ messages, Requests written term message.2) :
    Attends written term (node.deliver messages) := by
  induction messages generalizing node with
  | nil => exact attends
  | cons message rest ih =>
    have first := sent message List.mem_cons_self
    exact ih (attends.request placed stamped first message.1).1
      fun later member => sent later (List.mem_cons_of_mem _ member)

/-- The requests of one leader in one term, delayed, reordered and repeated at will: the
follower never agrees with the leader on less than before, and from an answer with `Success`
on it agrees up to the end of the request. -/
theorem late_requests_harmless (placed : PlacedFrom 1 written)
    (stamped : ∀ entry ∈ written, 1 ≤ entry.term) (attends : Attends written term node)
    (sent : ∀ message ∈ messages, Requests written term message.2) :
    (Monotone fun k => agreement written (node.deliver (messages.take k)).log) ∧
    ∀ k message, messages[k]? = some message →
      ((node.deliver (messages.take k)).handleAppendEntries message.1 message.2).2.success = true →
      ∀ later, k < later → message.2.prevLogIndex + message.2.entries.length ≤
        agreement written (node.deliver (messages.take later)).log := by
  have start (k : Nat) : Attends written term (node.deliver (messages.take k)) :=
    attends.deliver placed stamped fun message member => sent message (List.mem_of_mem_take member)
  have grows : Monotone fun k => agreement written (node.deliver (messages.take k)).log := by
    refine monotone_nat_of_le_succ fun k => ?_
    cases next : messages[k]? with
    | none =>
      rw [List.take_add_one, next, Option.toList_none, List.append_nil]
    | some message =>
      rw [deliver_take_succ next]
      exact ((start k).request placed stamped (sent message (List.mem_of_getElem? next)) _).2.1
  refine ⟨grows, fun k message next success later behind => ?_⟩
  have answered := ((start k).request placed stamped (sent message (List.mem_of_getElem? next))
    message.1).2.2 success
  rw [← deliver_take_succ next] at answered
  exact answered.trans (grows behind)

end Requests

/-- The heartbeat sent before the entry of term 2 was written arrives behind it. -/
theorem late_requests_harmless_lagging :
    2 ≤ agreement ({ term := 1, index := 1 } :: replacing.entries)
      (lagging.deliver [(0, replacing), (1, { replacing with entries := [] })]).log := by
  have matching : Matches ({ term := 1, index := 1 } :: replacing.entries) lagging.log := by
    refine ⟨by decide, by decide, fun position mine theirs held found same => ?_⟩
    rcases position with _ | _ | position
    · rfl
    · rw [← Option.some.inj held, ← Option.some.inj found] at same
      exact absurd same (by decide)
    · exact absurd held (by simp [lagging])
  have sent : ∀ message ∈ [(0, replacing), (1, { replacing with entries := [] })],
      Requests ({ term := 1, index := 1 } :: replacing.entries) 2 message.2 := by
    intro message member
    rcases List.mem_pair.mp member with rfl | rfl
    · exact ⟨replacer replacing.entries, "node1:7001", ⟨2, 0, by decide⟩, by decide⟩
    · exact ⟨replacer [], "node1:7001", ⟨1, 0, by decide⟩, by decide⟩
  have harmless := late_requests_harmless (.cons rfl (.cons rfl .nil)) (by decide)
    ⟨rfl, ⟨lagging_placed, by decide⟩, matching⟩ sent
  exact harmless.2 0 (0, replacing) rfl (by decide) 2 (by decide)

end RaftNode

end RaftGo.Raft
