import RaftGo.Raft.Merge
import RaftGo.Raft.Whole

/-! Both halves of the commit rule. `maybeCommit` looks at one index and one term and finds
the largest index a majority holds; the `min` with its own last index that a follower takes
never goes beyond what the request has verified. -/

namespace RaftGo.Raft

namespace Log

variable {log : Log}

theorem Ordered.get_le (ordered : log.Ordered) {earlier later : Nat}
    (boundary : log.snapshotIndex ≤ earlier) (order : earlier ≤ later)
    (inside : later ≤ log.lastIndex) : (log.get earlier).term ≤ (log.get later).term := by
  obtain ⟨first, one⟩ := List.getElem?_eq_some_iff.mp (get_found boundary (order.trans inside))
  obtain ⟨second, two⟩ := List.getElem?_eq_some_iff.mp (get_found (boundary.trans order) inside)
  rcases order.eq_or_lt with rfl | behind
  · exact Nat.le_refl _
  · rw [← one, ← two]
    exact List.pairwise_iff_getElem.mp ordered _ _ first second (by omega)

end Log

namespace RaftNode

section Leader

variable {node : RaftNode} {index : Nat}

theorem quorumIndex_le
    (matched : ∀ peer ∈ node.peers, node.matchIndex.read peer ≤ node.log.lastIndex) :
    node.quorumIndex ≤ node.log.lastIndex := by
  have counted := le_quorumIndex_iff.mp (Nat.le_refl node.quorumIndex)
  have positive : 0 < (node.log.lastIndex :: node.peers.map node.matchIndex.read).countP
      (node.quorumIndex ≤ ·) := Nat.lt_of_lt_of_le (Nat.succ_pos _) counted
  obtain ⟨value, member, reached⟩ := List.countP_pos_iff.mp positive
  refine (of_decide_eq_true reached).trans ?_
  rcases List.mem_cons.mp member with rfl | listed
  · exact Nat.le_refl _
  · obtain ⟨peer, known, rfl⟩ := List.mem_map.mp listed
    exact matched peer known

theorem le_quorumIndex_of_half (inside : index ≤ node.log.lastIndex)
    (half : node.peers.length + 1 <
      2 * (1 + (node.peers.filter (index ≤ node.matchIndex.read ·)).length)) :
    index ≤ node.quorumIndex := by
  rw [le_quorumIndex_iff, List.countP_cons_of_pos (by simpa using inside), List.countP_map,
    List.countP_eq_length_filter, majority]
  simp only [Function.comp_def]
  omega

theorem half_of_le_quorumIndex (reached : index ≤ node.quorumIndex) : node.peers.length + 1 <
    2 * (1 + (node.peers.filter (index ≤ node.matchIndex.read ·)).length) := by
  have counted := majority_le_filter reached
  rw [majority] at counted
  omega

theorem get_term_current (formed : node.log.WellFormed) (current : 1 ≤ node.currentTerm) :
    (node.log.get index).term = node.currentTerm ↔
      ∃ entry ∈ node.log.entries, entry.index = index ∧ entry.term = node.currentTerm :=
  Log.get_term_iff formed.placed (Nat.one_le_iff_ne_zero.mp current)

/-- Behind an entry of the current term there are only such entries. -/
theorem get_term_behind (formed : node.log.WellFormed) (ordered : node.log.Ordered)
    (bounded : ∀ entry ∈ node.log.entries, entry.term ≤ node.currentTerm)
    {entry : LogEntry} (member : entry ∈ node.log.entries) (stamped : entry.term = node.currentTerm)
    (behind : entry.index ≤ index) (inside : index ≤ node.log.lastIndex) :
    (node.log.get index).term = node.currentTerm := by
  have boundary := (Log.index_le_lastIndex formed.placed member).1
  have carried := bounded _ (List.mem_of_getElem? (Log.get_found (boundary.trans behind) inside))
  have rises := ordered.get_le boundary behind inside
  have here := congrArg LogEntry.term (Log.get_of_mem formed.placed member)
  omega

/-- `maybeCommit` moves `commitIndex` to the largest index of the current term that more
than half of the nodes hold, if there is one ahead of it. -/
theorem maybe_commit_greatest (formed : node.log.WellFormed) (ordered : node.log.Ordered)
    (bounded : ∀ entry ∈ node.log.entries, entry.term ≤ node.currentTerm)
    (current : 1 ≤ node.currentTerm)
    (matched : ∀ peer ∈ node.peers, node.matchIndex.read peer ≤ node.log.lastIndex) :
    IsGreatest ({node.commitIndex} ∪ {index | node.commitIndex < index ∧
      (∃ entry ∈ node.log.entries, entry.index = index ∧ entry.term = node.currentTerm) ∧
      node.peers.length + 1 <
        2 * (1 + (node.peers.filter (index ≤ node.matchIndex.read ·)).length)})
      node.maybeCommit.commitIndex ∧
    node.majority - 1 < (node.log.lastIndex :: node.peers.map node.matchIndex.read).length ∧
    node.commitIndex ≤ node.maybeCommit.commitIndex := by
  have inside := quorumIndex_le matched
  -- no index of the rule lies beyond the one read
  have below {index : Nat} (held : ∃ entry ∈ node.log.entries, entry.index = index ∧
      entry.term = node.currentTerm) (half : node.peers.length + 1 <
        2 * (1 + (node.peers.filter (index ≤ node.matchIndex.read ·)).length)) :
      index ≤ node.quorumIndex := by
    obtain ⟨entry, member, rfl, _⟩ := held
    exact le_quorumIndex_of_half (Log.index_le_lastIndex formed.placed member).2 half
  suffices greatest : IsGreatest _ node.maybeCommit.commitIndex from
    ⟨greatest, node.majority_sub_one_lt, greatest.2 (.inl rfl)⟩
  unfold maybeCommit
  split
  · rename_i due
    refine ⟨.inr ⟨due.1, (get_term_current formed current).mp due.2,
      half_of_le_quorumIndex (Nat.le_refl _)⟩, ?_⟩
    rintro index (rfl | ⟨_, held, half⟩)
    · exact Nat.le_of_lt due.1
    · exact below held half
  · rename_i idle
    refine ⟨.inl rfl, ?_⟩
    rintro index (rfl | ⟨ahead, held, half⟩)
    · exact Nat.le_refl _
    · have reached := below held half
      obtain ⟨entry, member, rfl, stamped⟩ := held
      exact absurd ⟨Nat.lt_of_lt_of_le ahead reached, get_term_behind formed ordered bounded
        member stamped reached inside⟩ idle

theorem maybe_commit_greatest_replacer : 2 ≤ RaftNode.commitIndex (maybeCommit
    { replacer replacing.entries with matchIndex := Table.set (fun _ => none) "node1:7001" 2 }) := by
  obtain ⟨greatest, _⟩ := @maybe_commit_greatest
    { replacer replacing.entries with matchIndex := Table.set (fun _ => none) "node1:7001" 2 }
    ⟨.cons rfl (.cons rfl (.cons rfl .nil)), by decide⟩ (by decide) (by decide) (by decide)
    (by decide)
  exact greatest.2 (.inr ⟨by decide, by decide, by decide⟩)

end Leader

section Follower

variable {leader follower : RaftNode} {args : AppendEntriesArgs} {peer : String}

theorem current_of_success {now : Nat}
    (accepted : (follower.handleAppendEntries now args).2.success = true) :
    follower.currentTerm ≤ args.term := by
  by_contra stale
  have idle : follower.observeLeader args.term = follower := by
    rw [observeLeader, if_neg (by omega), if_neg (by omega)]
  rw [handleAppendEntries, idle, if_pos (by omega)] at accepted
  cases accepted

theorem commitIndex_handleAppendEntries (current : follower.currentTerm ≤ args.term)
    (agrees : follower.prevConflict args = none) {now : Nat}
    (covered : args.leaderCommit ≤ (follower.handleAppendEntries now args).1.log.lastIndex) :
    (follower.handleAppendEntries now args).1.commitIndex =
      max follower.commitIndex args.leaderCommit := by
  rw [handleAppendEntries_accepted current agrees] at covered ⊢
  have before : ((follower.observeLeader args.term).contacted now args.leaderID).commitIndex =
      follower.commitIndex := follower.commitIndex_observeLeader args.term
  rw [log_acceptEntries] at covered
  rw [commitIndex_acceptEntries, before]
  split <;> omega

/-- What a leader sends from behind its marker, up to its end or from beyond it. -/
theorem buildArgsLocked_reach (formed : leader.log.WellFormed)
    (above : leader.log.snapshotIndex < leader.nextIndex.read peer)
    (inside : (leader.buildArgsLocked peer).prevLogIndex ≤ leader.log.lastIndex) :
    PlacedFrom ((leader.buildArgsLocked peer).prevLogIndex + 1)
      (leader.buildArgsLocked peer).entries ∧
    (leader.buildArgsLocked peer).prevLogIndex + (leader.buildArgsLocked peer).entries.length =
      leader.log.lastIndex := by
  simp only [buildArgsLocked] at inside ⊢
  rw [leader.log.slice_to_end above]
  have behind := (Log.placed_rest formed.placed).drop
    (leader.nextIndex.read peer - (leader.log.snapshotIndex + 1))
  have position : leader.log.snapshotIndex + 1 +
      (leader.nextIndex.read peer - (leader.log.snapshotIndex + 1)) =
        leader.nextIndex.read peer - 1 + 1 := by omega
  refine ⟨position ▸ behind, ?_⟩
  rw [Log.lastIndex_eq] at inside ⊢
  rw [List.length_drop]
  omega

/-- A follower that accepts the request of a leader commits up to where the leader has and
the request reaches: the `min` with its own last index takes nothing beyond. -/
theorem follower_commits_verified (leads : leader.log.WellFormed)
    (committed : leader.commitIndex ≤ leader.log.lastIndex)
    (above : leader.log.snapshotIndex < leader.nextIndex.read peer)
    (follows : follower.log.WellFormed) (now : Nat)
    (accepted : (follower.handleAppendEntries now (leader.buildArgsLocked peer)).2.success = true) :
    (follower.handleAppendEntries now (leader.buildArgsLocked peer)).1.commitIndex =
      max follower.commitIndex (min (leader.buildArgsLocked peer).leaderCommit
        ((leader.buildArgsLocked peer).prevLogIndex +
          (leader.buildArgsLocked peer).entries.length)) := by
  have current := current_of_success accepted
  have agrees := (success_handleAppendEntries current now).mp accepted
  -- a request from beyond the leader's end carries no term and is refused
  have inside : (leader.buildArgsLocked peer).prevLogIndex ≤ leader.log.lastIndex := by
    by_contra beyond
    have beyond := Nat.lt_of_not_le beyond
    obtain ⟨present, same⟩ := prevConflict_eq_none.mp agrees (Nat.zero_lt_of_lt beyond)
    have missing := congrArg LogEntry.term (leader.log.get_of_lastIndex_lt beyond)
    exact present (same.trans missing)
  obtain ⟨placed, reach⟩ := buildArgsLocked_reach leads above inside
  have merged := merged_handleAppendEntries follows placed current agrees now
  have covered := merged.reach follows placed (prevLogIndex_le agrees)
  have sent : (leader.buildArgsLocked peer).leaderCommit = leader.commitIndex := rfl
  rw [commitIndex_handleAppendEntries current agrees (by omega)]
  omega

/-- The log of the follower goes on behind a heartbeat that verifies its first entry. -/
theorem follower_commits_verified_lagging :
    let request := RaftNode.buildArgsLocked { replacer [] with commitIndex := 1 } "node1:7001"
    (request.prevLogIndex + request.entries.length = 1 ∧
      RaftNode.commitIndex lagging = 0 ∧
      (lagging.handleAppendEntries 0 request).1.log.lastIndex = 2) ∧
    (lagging.handleAppendEntries 0 request).1.commitIndex = 1 := by
  have verified := @follower_commits_verified { replacer [] with commitIndex := 1 }
    lagging "node1:7001" ⟨.cons rfl (.cons rfl .nil), by decide⟩ (by decide)
    (by decide) ⟨lagging_placed, by decide⟩ 0 (by decide)
  exact ⟨by decide, verified⟩

end Follower

end RaftNode

end RaftGo.Raft
