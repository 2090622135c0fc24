import RaftGo.Cluster.Counterparts

/-! Leaders that compact their log. A leader writes behind its marker and sends what lies
there, or its snapshot; what a majority of its peers has reached is decided. -/

namespace RaftGo

open Raft KvStore Library Library.Consensus

variable {ι : Type} [Fintype ι] [DecidableEq ι] {deployment : Deployment ι} {archive : Archive ι}
  {next : Consensus.State ι LogEntry} {i : ι} {elections : Nat} {node after : RaftNode}

theorem Raft.Log.sentinel_compacted (first second : List LogEntry) (index term : Nat) :
    ((Log.whole first).compactTo index term).sentinel =
      ((Log.whole second).compactTo index term).sentinel := by
  rcases Nat.eq_zero_or_pos index with rfl | positive
  · rw [Log.compactTo_zero, Log.compactTo_zero]
    rfl
  · rw [Log.compactTo_of_lt _ positive, Log.compactTo_of_lt _ positive]

theorem Compaction.behind (compaction : Compaction archive i node)
    (sound : Consensus.Sound archive.history)
    (path : (consensusContract deployment).Path i archive.history next)
    (log : after.log = (Log.whole (next.log i)).compactTo node.log.snapshotIndex
      node.log.snapshotTerm)
    (within : node.log.snapshotIndex ≤ (next.log i).length)
    (currentTerm : after.currentTerm = node.currentTerm)
    (lastApplied : after.lastApplied = node.lastApplied)
    (applied : node.lastApplied ≤ after.commitIndex)
    (settled : Settled next i after.commitIndex) :
    Compaction { archive with history := next } i after := by
  have sentinel : after.log.sentinel = node.log.sentinel :=
    calc after.log.sentinel
      _ = ((Log.whole (next.log i)).compactTo node.log.snapshotIndex
          node.log.snapshotTerm).sentinel := congrArg Log.sentinel log
      _ = ((Log.whole (archive.history.log i)).compactTo node.log.snapshotIndex
          node.log.snapshotTerm).sentinel := Log.sentinel_compacted ..
      _ = node.log.sentinel := (congrArg Log.sentinel compaction.log).symm
  have index : after.log.snapshotIndex = node.log.snapshotIndex := congrArg LogEntry.index sentinel
  have term : after.log.snapshotTerm = node.log.snapshotTerm := congrArg LogEntry.term sentinel
  refine ⟨?_, ?_, ?_, ?_, ?_, ?_, ?_, .inl settled⟩
  · rw [index]
    exact compaction.covered
  · rw [index, term]
    exact log
  · rw [index]
    exact within
  · rw [index, currentTerm]
    exact path.decided sound compaction.decided
  · rw [index, term]
    intro positive
    obtain ⟨entry, chosen, stamped⟩ := compaction.marker positive
    exact ⟨entry, path.chosen sound chosen, stamped⟩
  · rw [index, lastApplied]
    exact compaction.bottom
  · rw [lastApplied]
    exact applied

namespace Condensed

omit [DecidableEq ι] in
theorem leads (condensed : Condensed deployment archive i elections node)
    (leads : node.state = .leader) : ∃ whole, Replica deployment archive.history i elections whole ∧
      Counterpart archive.history i whole node ∧ whole.state = .leader := by
  obtain ⟨whole, replica, counterpart⟩ := condensed.counterpart
  rcases counterpart.state with same | ⟨_, stands, _⟩
  · exact ⟨whole, replica, counterpart, same.trans leads⟩
  · cases stands.symm.trans leads

omit [DecidableEq ι] in
theorem term (condensed : Condensed deployment archive i elections node) :
    archive.history.term i = node.currentTerm := by
  obtain ⟨whole, replica, counterpart⟩ := condensed.counterpart
  exact replica.voting.term.trans counterpart.currentTerm

omit [DecidableEq ι] in
theorem reigns (condensed : Condensed deployment archive i elections node)
    (sound : Consensus.Sound archive.history) (leads : node.state = .leader) :
    archive.history.Led node.currentTerm ∧
      archive.history.log i = archive.history.reign node.currentTerm := by
  obtain ⟨whole, replica, counterpart, leading⟩ := condensed.leads leads
  rw [← counterpart.currentTerm]
  exact ⟨⟨i, replica.voting.leader leading⟩, replica.reigns sound leading⟩

/-- Whatever is decided is settled on a leader. -/
theorem leader_settled (condensed : Condensed deployment archive i elections node)
    (sound : Consensus.Sound archive.history) (leads : node.state = .leader) {index : Nat}
    (decided : Decided archive.history node.currentTerm index) :
    Settled archive.history i index := by
  obtain ⟨led, reign⟩ := condensed.reigns sound leads
  have term := condensed.term
  refine sound.settled_of_decided (term.symm ▸ decided) term.le led ?_
  rw [reign]
  exact List.take_prefix _ _

theorem leader_committed (condensed : Condensed deployment archive i elections node)
    (sound : Consensus.Sound archive.history) (leads : node.state = .leader) :
    Settled archive.history i node.commitIndex := by
  rcases condensed.compaction.committed with settled | ⟨same, _⟩
  · exact settled
  · rw [same]
    exact condensed.leader_settled sound leads condensed.compaction.decided

theorem submit (condensed : Condensed deployment archive i elections node)
    (sound : Consensus.Sound archive.history) (leads : node.state = .leader) (command : Bytes)
    (backed : (node.submit command).1.Backed) :
    (condensedContract deployment).Reaches archive i fun next =>
      Consensus.Sound next.history ∧
        Condensed deployment next i elections (node.submit command).1 := by
  obtain ⟨whole, replica, counterpart, leading⟩ := condensed.leads leads
  have compaction := condensed.compaction
  obtain ⟨next, path, sound', replica', _⟩ := replica.submit sound leading command
  have built (node : RaftNode) (leads : node.state = .leader) :
      (node.submit command).1 = RaftNode.persist { node with
        log := node.log.append [{
          term := node.currentTerm
          index := node.log.lastIndex + 1
          command := command }] } := by
    simp [RaftNode.submit, leads]
  have written : next.log i = archive.history.log i ++ [{
      term := node.currentTerm
      index := node.log.lastIndex + 1
      command := command }] := by
    have log := congrArg Log.rest replica'.log
    rw [built whole leading] at log
    simp only [RaftNode.persist, RaftNode.write, replica.log, Log.rest_append, Log.rest_whole,
      Log.lastIndex_whole, counterpart.currentTerm, ← compaction.lastIndex] at log
    exact log.symm
  have settled : Settled next i node.commitIndex :=
    path.settled sound (condensed.leader_committed sound leads)
  rw [built node leads] at backed ⊢
  refine ⟨_, path.archived, sound', ?_, ?_, ?_, backed⟩
  · refine ⟨_, replica', ?_⟩
    rw [built whole leading]
    exact (counterpart.evolves path.evolves).frame ⟨rfl, rfl, rfl, rfl, rfl⟩
      ⟨rfl, rfl, rfl, rfl, rfl⟩
  · refine compaction.behind sound path ?_ ?_ rfl rfl compaction.applied settled
    · rw [written, ← Log.append_whole, ← Log.append_compactTo]
      · exact congrArg (Log.append · _) compaction.log
      · rw [Log.lastIndex_whole]
        exact compaction.within
    · rw [written, List.length_append]
      exact Nat.le_add_right_of_le compaction.within
  · intro _ j other
    exact (condensed.progress leads j other).path sound path

/-- What `buildArgsLocked` reads behind the marker, the counterpart would read in its
whole log. -/
theorem buildArgsLocked (condensed : Condensed deployment archive i elections node)
    (sound : Consensus.Sound archive.history) (leads : node.state = .leader) {whole : RaftNode}
    (counterpart : Counterpart archive.history i whole node)
    (log : whole.log = .whole (archive.history.log i))
    (nextIndex : whole.nextIndex = node.nextIndex) (commitIndex : whole.commitIndex = node.commitIndex)
    {peer : String} (above : node.log.snapshotIndex < node.nextIndex.read peer) :
    whole.buildArgsLocked peer = node.buildArgsLocked peer := by
  have compaction := condensed.compaction
  have settled := compaction.boundary_settled (condensed.leader_committed sound leads)
  have marked (positive : 0 < node.log.snapshotIndex) :
      ((Log.whole (archive.history.log i)).get node.log.snapshotIndex).term =
        node.log.snapshotTerm := by
    obtain ⟨entry, found, stamped⟩ := compaction.marked sound positive settled
    have read := Log.get_whole_of_found found
    rw [Nat.sub_add_cancel positive] at read
    rw [read]
    exact stamped
  have previous : ((Log.whole (archive.history.log i)).get (node.nextIndex.read peer - 1)).term =
      (node.log.get (node.nextIndex.read peer - 1)).term := by
    rw [compaction.log]
    exact (Log.get_term_compacted (by omega) marked).symm
  have entries : (Log.whole (archive.history.log i)).slice (node.nextIndex.read peer)
      ((archive.history.log i).length + 1) =
        node.log.slice (node.nextIndex.read peer) (node.log.lastIndex + 1) := by
    rw [Log.slice_whole (Nat.zero_lt_of_lt above), compaction.log]
    exact (Log.slice_compacted above).symm
  simp only [RaftNode.buildArgsLocked, counterpart.currentTerm, counterpart.id, log,
    Log.lastIndex_whole, nextIndex, commitIndex, previous, entries]

/-- The counterpart of a leader can be given the tables of the leader itself. -/
theorem leads_alike (condensed : Condensed deployment archive i elections node)
    (sound : Consensus.Sound archive.history) (leads : node.state = .leader) :
    ∃ whole, Replica deployment archive.history i elections whole ∧
      Counterpart archive.history i whole node ∧ whole.state = .leader ∧
      whole.nextIndex = node.nextIndex ∧ whole.commitIndex = node.commitIndex := by
  obtain ⟨whole, replica, counterpart, leading⟩ := condensed.leads leads
  refine ⟨{ whole with nextIndex := node.nextIndex, commitIndex := node.commitIndex }, ?_, ?_,
    leading, rfl, rfl⟩
  · exact { replica with
      voting := replica.voting.keeps (.frame rfl rfl rfl (.inl rfl))
      settled := condensed.leader_committed sound leads }
  · exact counterpart.frame ⟨rfl, rfl, rfl, rfl, rfl⟩ ⟨rfl, rfl, rfl, rfl, rfl⟩

theorem sends (condensed : Condensed deployment archive i elections node)
    (sound : Consensus.Sound archive.history) (leads : node.state = .leader) (boot : Nat) :
    ∀ out ∈ node.replicate, ((condensedContract deployment).shape archive).Sends i boot out := by
  intro out member
  obtain ⟨peer, listed, rfl⟩ := List.mem_map.mp member
  obtain ⟨led, reign⟩ := condensed.reigns sound leads
  obtain ⟨whole, replica, counterpart, leading, nextIndex, commitIndex⟩ :=
    condensed.leads_alike sound leads
  unfold RaftNode.replicateTo
  split
  · refine ⟨rfl, led, condensed.compaction.decided, condensed.compaction.marker, ?_, by simp⟩
    rw [← reign]
    exact replica.indexed.of_initial (List.take_prefix _ _)
  · rename_i above
    have above := Nat.lt_of_not_le above
    have built := condensed.buildArgsLocked sound leads counterpart replica.log nextIndex
      commitIndex above
    have uncompacted : whole.log.snapshotIndex = 0 := by rw [replica.log, Log.snapshotIndex_whole]
    have sending : .append peer node.currentTerm (node.buildArgsLocked peer) ∈ whole.replicate := by
      refine List.mem_map.mpr ⟨peer, counterpart.peers ▸ listed, ?_⟩
      rw [RaftNode.replicateTo, uncompacted, nextIndex,
        if_neg (Nat.not_le.mpr (Nat.zero_lt_of_lt above)), built, counterpart.currentTerm]
    exact ⟨replica.sends sound leading boot _ sending, by simp⟩

theorem advanceMatch (condensed : Condensed deployment archive i elections node)
    (sound : Consensus.Sound archive.history) {peer : String} {newMatch : Nat}
    (reached : node.state = .leader → ∀ j, deployment.addr j = peer →
      archive.Reached node.currentTerm j newMatch) :
    Condensed deployment archive i elections (node.advanceMatch peer newMatch) := by
  unfold RaftNode.advanceMatch
  dsimp only
  split
  · obtain ⟨whole, replica, counterpart⟩ := condensed.counterpart
    refine condensed.quiet sound .refl replica
      (counterpart.frame ⟨rfl, rfl, rfl, rfl, rfl⟩ ⟨rfl, rfl, rfl, rfl, rfl⟩) replica.log
      ⟨rfl, rfl, rfl⟩ (Nat.le_refl _) ?_ (condensed.backed.persists (.rests rfl rfl rfl))
    intro leads j other
    simp only [Table.read_set]
    split
    · rename_i same
      exact reached leads j same
    · exact condensed.progress leads j other
  · exact condensed.retains sound ⟨rfl, rfl, rfl, rfl, rfl⟩ ⟨rfl, rfl, rfl⟩ rfl
      (condensed.backed.persists (.rests rfl rfl rfl))

/-- An index a majority of the peers is taken to hold is committed: either a peer counted
only covers it, and it was decided before, or the majority has acknowledged it. -/
theorem quorum_decided (mesh : deployment.FullMesh)
    (condensed : Condensed deployment archive i elections node)
    (sound : Consensus.Sound archive.history)
    (peers : node.peers = (deployment.config i).peers) (leads : node.state = .leader)
    (ahead : node.commitIndex < node.quorumIndex)
    (current : (node.log.get node.quorumIndex).term = node.currentTerm) :
    Decided archive.history node.currentTerm node.quorumIndex := by
  by_contra undecided
  have positive : 0 < node.quorumIndex := Nat.zero_lt_of_lt ahead
  obtain ⟨whole, replica, counterpart, leading⟩ := condensed.leads leads
  obtain ⟨led, reign⟩ := condensed.reigns sound leads
  have compaction := condensed.compaction
  have behind : node.log.snapshotIndex < node.quorumIndex :=
    Nat.lt_of_le_of_lt (compaction.bottom.trans compaction.applied) ahead
  rw [compaction.log, Log.get_compactTo _ positive behind] at current
  obtain ⟨_, found⟩ := Log.found_of_term (current ▸ Nat.ne_of_gt (sound.positive led))
  have within : node.quorumIndex ≤ (archive.history.log i).length := by
    have inside := (List.getElem?_eq_some_iff.mp found).1
    omega
  have own : node.quorumIndex ≤ archive.history.acked node.currentTerm i := by
    rw [← counterpart.currentTerm]
    exact within.trans (replica.own leading)
  refine undecided (.inr ⟨node.currentTerm, node.quorumIndex, Nat.le_refl _,
    quorum_committed mesh peers positive ⟨_, reign ▸ found, current⟩ own ?_, Nat.le_refl _⟩)
  intro j other reached
  rcases condensed.progress leads j other with acked | ⟨_, decided⟩
  · exact reached.trans acked
  · exact absurd (decided.mono (Nat.le_refl _) reached) undecided

theorem maybeCommit (mesh : deployment.FullMesh)
    (condensed : Condensed deployment archive i elections node)
    (sound : Consensus.Sound archive.history)
    (peers : node.peers = (deployment.config i).peers) (leads : node.state = .leader) :
    Condensed deployment archive i elections node.maybeCommit := by
  unfold RaftNode.maybeCommit
  split
  · rename_i advance
    obtain ⟨ahead, current⟩ := advance
    obtain ⟨whole, replica, counterpart⟩ := condensed.counterpart
    have compaction := condensed.compaction
    have settled := condensed.leader_settled sound leads
      (condensed.quorum_decided mesh sound peers leads ahead current)
    exact {
      counterpart := ⟨whole, replica,
        counterpart.frame ⟨rfl, rfl, rfl, rfl, rfl⟩ ⟨rfl, rfl, rfl, rfl, rfl⟩⟩
      compaction := { compaction with
        applied := compaction.applied.trans (Nat.le_of_lt ahead)
        committed := .inl settled }
      progress := condensed.progress
      backed := condensed.backed.persists (.rests rfl rfl rfl) }
  · exact condensed

theorem recordReply (mesh : deployment.FullMesh)
    (condensed : Condensed deployment archive i elections node)
    (sound : Consensus.Sound archive.history)
    (peers : node.peers = (deployment.config i).peers) (leads : node.state = .leader)
    {peer : String} {args : AppendEntriesArgs} {reply : AppendEntriesReply}
    (reached : reply.success = true → ∀ j, deployment.addr j = peer →
      archive.Reached node.currentTerm j (args.prevLogIndex + args.entries.length)) (now : Nat) :
    Condensed deployment archive i elections (node.recordReply now peer args reply) := by
  have unchanged (after : RaftNode) (role : node.SameRole after) (rests : node.Rests after)
      (matchIndex : after.matchIndex = node.matchIndex) (persists : node.Persists after) :
      Condensed deployment archive i elections after :=
    condensed.retains sound role rests matchIndex (condensed.backed.persists persists)
  have heard := unchanged { node with lastHeardFrom := node.lastHeardFrom.set peer now }
    ⟨rfl, rfl, rfl, rfl, rfl⟩ ⟨rfl, rfl, rfl⟩ rfl (.rests rfl rfl rfl)
  unfold RaftNode.recordReply
  dsimp only
  split
  · rename_i success
    refine (heard.advanceMatch sound fun _ => reached success).maybeCommit mesh sound ?_ ?_
    · rw [RaftNode.peers_advanceMatch]
      exact peers
    · rw [RaftNode.state_advanceMatch]
      exact leads
  · exact unchanged _ ⟨rfl, rfl, rfl, rfl, rfl⟩ ⟨rfl, rfl, rfl⟩ rfl (.rests rfl rfl rfl)

end Condensed

end RaftGo
