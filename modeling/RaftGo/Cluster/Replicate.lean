import RaftGo.Cluster.Consensus

/-! Replication on nodes without snapshots: a leader writes entries and sends the
end of its log, a follower grafts what it receives, and the leader commits what a
majority has acknowledged. -/

namespace RaftGo

open Raft KvStore Library Library.Consensus

variable {ι : Type} [Fintype ι] [DecidableEq ι] {deployment : Deployment ι}
  {ghost : Consensus.State ι LogEntry} {i : ι} {elections : Nat} {node : RaftNode}

/-- The index `maybeCommit` finds is committed if it was written in the current term and
what is recorded of the peers has been acknowledged. -/
theorem quorum_committed (mesh : deployment.FullMesh)
    (peers : node.peers = (deployment.config i).peers) (positive : 0 < node.quorumIndex)
    {term : Nat} (written : ∃ entry, (ghost.reign term)[node.quorumIndex - 1]? = some entry ∧
      entry.term = term)
    (own : node.quorumIndex ≤ ghost.acked term i)
    (acked : ∀ j, j ≠ i → node.quorumIndex ≤ node.matchIndex.read (deployment.addr j) →
      node.quorumIndex ≤ ghost.acked term j) : Committed ghost term node.quorumIndex := by
  have majority : IsMajority (deployment.quorum i (node.peers.filter fun peer =>
      node.quorumIndex ≤ node.matchIndex.read peer)) := by
    refine mesh.majority ?_ ?_ ?_
    · rw [peers]
      exact (mesh.peers_nodup i).filter _
    · intro peer member
      exact peers ▸ (List.mem_filter.mp member).1
    · rw [← peers]
      exact RaftNode.majority_le_filter (Nat.le_refl _)
  refine ⟨positive, written, _, majority, ?_⟩
  intro voter member
  rcases Deployment.mem_quorum.mp member with rfl | listed
  · exact own
  · obtain ⟨known, reached⟩ := List.mem_filter.mp listed
    obtain ⟨j, other, routed⟩ := (mesh.mem_peers i _).mp (peers ▸ known)
    have same := mesh.addr_injective j voter routed
    subst same
    exact acked j other (of_decide_eq_true reached)

namespace Replica

omit [DecidableEq ι] in
theorem reigns (replica : Replica deployment ghost i elections node)
    (sound : Consensus.Sound ghost) (leads : node.state = .leader) :
    ghost.log i = ghost.reign node.currentTerm := by
  rw [← replica.voting.term]
  refine sound.reigning i ?_
  rw [replica.voting.term]
  exact replica.voting.leader leads

theorem submit (replica : Replica deployment ghost i elections node)
    (sound : Consensus.Sound ghost) (leads : node.state = .leader) (command : Bytes) :
    (consensusContract deployment).Reaches ghost i fun next =>
      Consensus.Sound next ∧ Replica deployment next i elections (node.submit command).1 ∧
        (next.reign node.currentTerm)[node.log.lastIndex]? = some {
          term := node.currentTerm
          index := node.log.lastIndex + 1
          command := command } := by
  have term := replica.voting.term
  have reign := replica.reigns sound leads
  have length : node.log.lastIndex = (ghost.log i).length := by rw [replica.log, Log.lastIndex_whole]
  have written : (node.submit command).1 = RaftNode.persist { node with
      log := node.log.append [{
        term := node.currentTerm
        index := node.log.lastIndex + 1
        command := command }] } := by
    simp [RaftNode.submit, leads]
  generalize fresh : ({
      term := node.currentTerm
      index := node.log.lastIndex + 1
      command := command } : LogEntry) = entry at written ⊢
  have appended : Consensus.Step ghost i _ := .append entry
    (by rw [term]; exact replica.voting.leader leads) (by rw [term, ← fresh]; rfl)
  rw [written]
  refine .move appended (.here ⟨sound.step appended, ?_, ?_⟩)
  · exact {
      voting := replica.voting.keeps (RaftNode.KeepsVote.persist (.frame rfl rfl rfl (.inl rfl)))
      log := by
        simp only [RaftNode.persist, RaftNode.write, Function.update_self, replica.log]
        rfl
      indexed := by
        simp only [Function.update_self]
        exact replica.indexed.snoc (by rw [← fresh, ← length])
      stored := RaftNode.stored_persist _
      snapshot := replica.snapshot
      settled := sound.settled_step appended replica.settled
      stands := fun stands => by cases leads.symm.trans stands
      progress := fun _ j other =>
        (replica.progress leads j other).trans (appended.evolves.acked _ _)
      own := fun _ => by
        simp [RaftNode.persist, RaftNode.write, term, ← reign]
      spawned := fun _ => .inr (.inl ⟨i, replica.voting.leader leads⟩) }
  · simp [term, length, ← reign]

omit [DecidableEq ι] in
theorem advanceMatch (replica : Replica deployment ghost i elections node) {peer : String}
    {newMatch : Nat} (acked : node.state = .leader → ∀ j, deployment.addr j = peer →
      newMatch ≤ ghost.acked node.currentTerm j) :
    Replica deployment ghost i elections (node.advanceMatch peer newMatch) := by
  unfold RaftNode.advanceMatch
  dsimp only
  split
  · refine { replica with
      voting := replica.voting.keeps (.frame rfl rfl rfl (.inl rfl))
      progress := ?_ }
    intro leads j other
    rw [Table.read_set]
    split
    · rename_i same
      exact acked leads j same
    · exact replica.progress leads j other
  · exact replica.retains ⟨rfl, rfl, rfl, rfl, rfl, rfl, rfl⟩

/-- What `maybeCommit` finds is acknowledged by a majority and was written in the
current term. -/
theorem maybeCommit (mesh : deployment.FullMesh)
    (replica : Replica deployment ghost i elections node) (sound : Consensus.Sound ghost)
    (peers : node.peers = (deployment.config i).peers) (leads : node.state = .leader) :
    Replica deployment ghost i elections node.maybeCommit := by
  unfold RaftNode.maybeCommit
  split
  · rename_i advance
    obtain ⟨ahead, current⟩ := advance
    have positive : 0 < node.quorumIndex := Nat.zero_lt_of_lt ahead
    have led : ghost.Led node.currentTerm := ⟨i, replica.voting.leader leads⟩
    have reign := replica.reigns sound leads
    rw [replica.log] at current
    obtain ⟨_, found⟩ := Log.found_of_term (current ▸ Nat.ne_of_gt (sound.positive led))
    have within : node.quorumIndex ≤ (ghost.log i).length := by
      have inside := (List.getElem?_eq_some_iff.mp found).1
      omega
    have committed : Committed ghost node.currentTerm node.quorumIndex :=
      quorum_committed mesh peers positive ⟨_, reign ▸ found, current⟩
        (within.trans (replica.own leads))
        fun j other reached => reached.trans (replica.progress leads j other)
    refine { replica with
      voting := replica.voting.keeps (.frame rfl rfl rfl (.inl rfl))
      settled := .inr ⟨node.currentTerm, node.quorumIndex, replica.voting.term.ge, committed,
        Nat.le_refl _, ?_⟩ }
    rw [reign]
    exact List.take_prefix _ _
  · exact replica

theorem recordReply (mesh : deployment.FullMesh)
    (replica : Replica deployment ghost i elections node) (sound : Consensus.Sound ghost)
    (peers : node.peers = (deployment.config i).peers) (leads : node.state = .leader)
    {peer : String} {args : AppendEntriesArgs} {reply : AppendEntriesReply}
    (acked : reply.success = true → ∀ j, deployment.addr j = peer →
      args.prevLogIndex + args.entries.length ≤ ghost.acked node.currentTerm j) (now : Nat) :
    Replica deployment ghost i elections (node.recordReply now peer args reply) := by
  have heard : Replica deployment ghost i elections
      { node with lastHeardFrom := node.lastHeardFrom.set peer now } :=
    replica.retains ⟨rfl, rfl, rfl, rfl, rfl, rfl, rfl⟩
  unfold RaftNode.recordReply
  dsimp only
  split
  · rename_i success
    refine (heard.advanceMatch fun _ => acked success).maybeCommit mesh sound ?_ ?_
    · rw [RaftNode.peers_advanceMatch]
      exact peers
    · rw [RaftNode.state_advanceMatch]
      exact leads
  · exact replica.retains ⟨rfl, rfl, rfl, rfl, rfl, rfl, rfl⟩

omit [DecidableEq ι] in
/-- The logs that meet in `HandleAppendEntries` agree wherever their terms do. -/
theorem mergeable (sound : Consensus.Sound ghost) {term : Nat} {written : List LogEntry}
    (led : ghost.Led term) (initial : written <+: ghost.reign term)
    (indexed : Indexed written) : Mergeable (ghost.log i) written where
  agree _ _ _ found found' same := (sound.logCoherent i).agree
    ((sound.reignCoherent term led).of_initial initial) found found' same
  stamped entry member := by
    obtain ⟨position, found⟩ := List.mem_iff_getElem?.mp member
    exact Nat.ne_of_gt (sound.positive (sound.logCoherent i position entry found).1)
  indexed := indexed

omit [DecidableEq ι] in
/-- A request that passes the consistency check carries an end of a part of the
reign, and the node holds what comes before it. -/
theorem consistent (replica : Replica deployment ghost i elections node)
    (sound : Consensus.Sound ghost) {rpc : AppendRpc ι} (shipment : Shipment deployment ghost rpc)
    (agrees : node.prevConflict rpc.args = none) :
    ∃ written, written <+: ghost.reign rpc.term ∧ Carries written rpc.args ∧
      Mergeable (ghost.log i) written ∧
      (ghost.log i).take rpc.args.prevLogIndex = written.take rpc.args.prevLogIndex := by
  rcases Nat.eq_zero_or_pos rpc.args.prevLogIndex with zero | positive
  · rcases shipment.content with ⟨written, initial, indexed, carries⟩ | ⟨beyond, _⟩
    · exact ⟨written, initial, carries, mergeable (i := i) sound shipment.led initial indexed,
        by simp [zero]⟩
    · omega
  · obtain ⟨stamped, same⟩ := RaftNode.prevConflict_eq_none.mp agrees positive
    rw [replica.log] at stamped same
    obtain ⟨_, found⟩ := Log.found_of_term stamped
    rcases shipment.content with ⟨written, initial, indexed, carries⟩ | ⟨_, zero⟩
    · have mergeable := mergeable (i := i) sound shipment.led initial indexed
      obtain ⟨entry, found', term⟩ := carries.previous positive
      have taken := mergeable.agree _ _ _ found found' (same.trans term.symm)
      rw [Nat.sub_add_cancel positive] at taken
      exact ⟨written, initial, carries, mergeable, taken⟩
    · exact absurd (same.trans zero) stamped

theorem adopt (replica : Replica deployment ghost i elections node) (sound : Consensus.Sound ghost)
    (led : ghost.Led node.currentTerm) {written : List LogEntry}
    (initial : written <+: ghost.reign node.currentTerm) (indexed : Indexed written)
    (conceded : node.state ≠ .candidate) :
    (consensusContract deployment).Reaches ghost i fun next =>
      Consensus.Sound next ∧ Replica deployment next i elections
        (RaftNode.persist { node with log := .whole (graft (ghost.log i) written) }) ∧
      written.length ≤ next.acked node.currentTerm i := by
  have term := replica.voting.term
  have part : (ghost.reign (ghost.term i)).take written.length = written := by
    rw [term]
    exact (List.prefix_iff_eq_take.mp initial).symm
  have adopted : Consensus.Step ghost i _ := .adopt written.length (term ▸ led)
    (term ▸ initial.length_le)
  refine .move adopted (.here ⟨sound.step adopted, ?_, ?_⟩)
  · exact {
      voting := replica.voting.keeps (RaftNode.KeepsVote.persist (.frame rfl rfl rfl (.inl rfl)))
      log := by simp only [Function.update_self, part]; rfl
      indexed := by
        simp only [Function.update_self, part]
        rcases graft_cases (ghost.log i) written with kept | replaced
        · rw [kept]
          exact replica.indexed
        · rw [replaced]
          exact indexed
      stored := RaftNode.stored_persist _
      snapshot := replica.snapshot
      settled := sound.settled_step adopted replica.settled
      stands := fun stands => absurd stands conceded
      progress := fun leads j other =>
        (replica.progress leads j other).trans (adopted.evolves.acked _ _)
      own := fun leads => by
        have held : written <+: ghost.log i := by
          rw [replica.reigns sound leads]
          exact initial
        simp only [Function.update_self, part, graft_of_initial held]
        exact (replica.own leads).trans (adopted.evolves.acked _ _)
      spawned := fun waiting => (replica.spawned waiting).imp_right (·.moves adopted) }
  · simp [term]

theorem acceptEntries (replica : Replica deployment ghost i elections node)
    (sound : Consensus.Sound ghost) {rpc : AppendRpc ι} (shipment : Shipment deployment ghost rpc)
    (current : node.currentTerm = rpc.term) (settled : node.state ≠ .candidate)
    (agrees : node.prevConflict rpc.args = none) :
    (consensusContract deployment).Reaches ghost i fun next =>
      Replica deployment next i elections (node.acceptEntries rpc.args) ∧
        rpc.args.prevLogIndex + rpc.args.entries.length ≤ next.acked rpc.term i := by
  obtain ⟨written, initial, carries, mergeable, same⟩ := replica.consistent sound shipment agrees
  have merged : node.log.mergeEntries rpc.args.entries = .whole (graft (ghost.log i) written) := by
    rw [replica.log, carries.entries]
    exact mergeEntries_whole mergeable same carries.within
  obtain ⟨next, path, sound', adopter, acked⟩ := replica.adopt sound (current ▸ shipment.led)
    (current ▸ initial) mergeable.indexed settled
  obtain ⟨signal, received, accepted⟩ := node.acceptEntries_eq rpc.args
  have term : next.term i = rpc.term := adopter.voting.term.trans current
  rw [current, ← term] at acked
  rw [accepted, merged]
  refine ⟨next, path, ?_, ?_⟩
  · refine { adopter with
      voting := adopter.voting.keeps ⟨rfl, rfl, fun _ => ⟨rfl, rfl⟩, .inl rfl⟩
      settled := ?_ }
    dsimp only [RaftNode.persist, RaftNode.write]
    split
    · have below := Nat.min_le_left rpc.args.leaderCommit
        (Log.whole (graft (ghost.log i) written)).lastIndex
      have decided : Decided next rpc.term rpc.args.leaderCommit :=
        path.decided sound shipment.decided
      exact sound'.settled_of_acked (decided.mono term.ge below) (term ▸ path.evolves.led shipment.led)
        (below.trans (carries.commit.trans acked))
    · exact adopter.settled
  · rw [← term]
    exact carries.reach.trans_le acked

omit [DecidableEq ι] in
/-- A request built by `buildArgsLocked` carries the end of the leader's log, unless
`nextIndex` points beyond it. -/
theorem carries (replica : Replica deployment ghost i elections node) {peer : String}
    (above : 0 < node.nextIndex.read peer) :
    Carries (ghost.log i) (node.buildArgsLocked peer) ∨
      0 < (node.buildArgsLocked peer).prevLogIndex ∧
        (node.buildArgsLocked peer).prevLogTerm = 0 := by
  simp only [RaftNode.buildArgsLocked, replica.log, Log.lastIndex_whole]
  by_cases within : node.nextIndex.read peer - 1 ≤ (ghost.log i).length
  · refine .inl ⟨within, Log.slice_whole above, ?_, replica.settled.le_length⟩
    dsimp only
    intro positive
    have inside : node.nextIndex.read peer - 1 - 1 < (ghost.log i).length := by omega
    have found := List.getElem?_eq_getElem inside
    have read := Log.get_whole_of_found found
    rw [Nat.sub_add_cancel positive] at read
    exact ⟨_, found, by rw [read]⟩
  · have positive : 0 < node.nextIndex.read peer - 1 := by omega
    refine .inr ⟨positive, ?_⟩
    rw [Log.get_whole positive, List.getElem?_eq_none (by omega)]
    rfl

omit [DecidableEq ι] in
theorem sends (replica : Replica deployment ghost i elections node)
    (sound : Consensus.Sound ghost) (leads : node.state = .leader) (boot : Nat) :
    ∀ out ∈ node.replicate, (consensusShape deployment ghost).Sends i boot out := by
  intro out member
  obtain ⟨peer, _, rfl⟩ := List.mem_map.mp member
  have uncompacted : node.log.snapshotIndex = 0 := by rw [replica.log, Log.snapshotIndex_whole]
  unfold RaftNode.replicateTo
  split
  · exact uncompacted
  · rename_i above
    rw [uncompacted] at above
    have above := Nat.pos_of_ne_zero fun zero => above (Nat.le_of_eq zero)
    exact {
      term := rfl
      led := ⟨i, replica.voting.leader leads⟩
      content := by
        rcases replica.carries above with carries | beyond
        · exact .inl ⟨ghost.log i, replica.reigns sound leads ▸ List.prefix_refl _,
            replica.indexed, carries⟩
        · exact .inr beyond
      decided := by
        rcases replica.settled with nothing | ⟨term, bound, reached, committed, below, _⟩
        · exact .inl nothing
        · exact .inr ⟨term, bound, replica.voting.term ▸ reached, committed, below⟩
      acked := by simp }

omit [DecidableEq ι] in
theorem restart (replica : Replica deployment ghost i elections node) (cfg : Config) {disk : Disk}
    (same : disk.state = node.disk.state) (bare : disk.snapshot = none) :
    Replica deployment ghost i 0 (boot cfg disk) := by
  have follower := (RaftNode.boot_vote cfg disk).1
  have log := RaftNode.stored_boot replica.stored cfg bare same
  exact {
    voting := replica.voting.keeps (RaftNode.keepsVote_boot replica.voting.synced cfg same)
    log := log.trans replica.log
    indexed := replica.indexed
    stored := by
      have stored := replica.stored
      unfold RaftNode.Stored at stored ⊢
      rwa [RaftNode.boot_disk, same, log]
    snapshot := by rw [RaftNode.boot_disk, bare]
    settled := .inl (RaftNode.boot_unsnapshotted cfg bare).2
    stands := fun stands => by cases follower.symm.trans stands
    progress := fun leads => by cases follower.symm.trans leads
    own := fun leads => by cases follower.symm.trans leads
    spawned := fun waiting => absurd rfl waiting }

end Replica

end RaftGo
