import RaftGo.Cluster.Leading

/-! Followers that compact their log. A follower catches up by entries or by a snapshot,
and in either case its counterpart adopts a part of the reign. A snapshot installed over
a longer log that differs from it is the exception: the counterpart adopts nothing, but
the node covers what the leader then takes it to hold. -/

namespace RaftGo

open Raft KvStore Library Library.Consensus

variable {ι : Type} [Fintype ι] [DecidableEq ι] {deployment : Deployment ι} {archive : Archive ι}
  {next : Consensus.State ι LogEntry} {i : ι} {elections : Nat} {node after : RaftNode}

theorem Compaction.cover {index term : Nat} (positive : 0 < index)
    (log : after.log = (Log.whole (archive.history.log i)).compactTo index term)
    (within : index ≤ (archive.history.log i).length)
    (decided : Decided archive.history after.currentTerm index)
    (marker : ∃ entry, Chosen archive.history index entry ∧ entry.term = term)
    (bottom : index ≤ after.lastApplied) (applied : after.lastApplied ≤ after.commitIndex)
    (committed : Settled archive.history i after.commitIndex ∨
      after.commitIndex = index ∧ index < (archive.history.log i).length) :
    Compaction { archive with covered := Function.update archive.covered i index } i after := by
  have here : after.log.snapshotIndex = index := by rw [log, Log.snapshotIndex_compacted]
  have stamped : after.log.snapshotTerm = term := by rw [log, Log.snapshotTerm_compacted positive]
  refine ⟨?_, ?_, ?_, ?_, fun _ => ?_, ?_, applied, ?_⟩
  · rw [here]
    exact Function.update_self ..
  · rw [here, stamped]
    exact log
  · rw [here]
    exact within
  · rw [here]
    exact decided
  · rw [here, stamped]
    exact marker
  · rw [here]
    exact bottom
  · rw [here]
    exact committed

/-- The history after the counterpart of a node has adopted a part of the reign of its
term: whatever is decided and within that part is settled. -/
structure Adoption (deployment : Deployment ι) (archive : Archive ι) (i : ι) (elections : Nat)
    (node : RaftNode) (written : List LogEntry) (next : Consensus.State ι LogEntry) : Prop where
  counterpart : ∃ whole, Replica deployment next i elections whole ∧ Counterpart next i whole node
  log : next.log i = graft (archive.history.log i) written
  acked : written.length ≤ next.acked node.currentTerm i
  settled : ∀ index, Decided archive.history node.currentTerm index → index ≤ written.length →
    Settled next i index
  committed : node.log.snapshotIndex ≤ written.length → Settled next i node.commitIndex

namespace Condensed

omit [DecidableEq ι] in
theorem conceded (condensed : Condensed deployment archive i elections node)
    (led : archive.history.Led node.currentTerm) : ∃ whole,
      Replica deployment archive.history i elections whole ∧
        Counterpart archive.history i whole node ∧ whole.state ≠ .candidate := by
  obtain ⟨whole, replica, counterpart⟩ := condensed.counterpart
  by_cases stands : whole.state = .candidate
  · rcases counterpart.state with same | ⟨follows, _⟩
    · have current := counterpart.currentTerm
      obtain ⟨leader, leads⟩ := led
      have different : leader ≠ i := by
        rintro rfl
        exact (replica.stands stands).2 (current ▸ leads)
      have outrun : Outrun archive.history i node.currentTerm :=
        ⟨⟨leader, different, leads⟩, current ▸ replica.voting.candidate stands⟩
      refine ⟨{ whole with state := .follower }, replica.concede (current ▸ ⟨leader, leads⟩),
        ⟨counterpart.id, counterpart.peers, current, counterpart.votedFor, ?_⟩, nofun⟩
      exact .inr ⟨rfl, same.symm.trans stands, outrun⟩
    · cases stands.symm.trans follows
  · exact ⟨whole, replica, counterpart, stands⟩

omit [DecidableEq ι] in
theorem decided_commit (condensed : Condensed deployment archive i elections node) :
    Decided archive.history node.currentTerm node.commitIndex := by
  rcases condensed.compaction.committed with settled | ⟨same, _⟩
  · exact condensed.term ▸ settled.decided
  · rw [same]
    exact condensed.compaction.decided

theorem adopts (condensed : Condensed deployment archive i elections node)
    (sound : Consensus.Sound archive.history) (led : archive.history.Led node.currentTerm)
    {written : List LogEntry} (initial : written <+: archive.history.reign node.currentTerm)
    (indexed : Indexed written) :
    (consensusContract deployment).Reaches archive.history i
      (Adoption deployment archive i elections node written) := by
  obtain ⟨whole, replica, counterpart, conceded⟩ := condensed.conceded led
  have current := counterpart.currentTerm
  obtain ⟨next, path, sound', adopter, acked⟩ := replica.adopt sound (current.symm ▸ led)
    (current.symm ▸ initial) indexed conceded
  rw [current] at acked
  have term : next.term i = node.currentTerm := adopter.voting.term.trans current
  have settled (index : Nat) (decided : Decided archive.history node.currentTerm index)
      (reach : index ≤ written.length) : Settled next i index :=
    sound'.settled_of_acked (term.symm ▸ path.decided sound decided)
      (term.symm ▸ path.evolves.led led) (term.symm ▸ reach.trans acked)
  refine ⟨next, path, ⟨?_, (congrArg Log.rest adopter.log).symm, acked, settled, ?_⟩⟩
  · exact ⟨_, adopter, (counterpart.evolves path.evolves).frame ⟨rfl, rfl, rfl, rfl, rfl⟩
      ⟨rfl, rfl, rfl, rfl, rfl⟩⟩
  · intro within
    rcases condensed.compaction.committed with held | ⟨same, _⟩
    · exact path.settled sound held
    · exact settled _ condensed.decided_commit (same ▸ within)

omit [DecidableEq ι] in
/-- A request that passes the consistency check carries an end of a part of the reign,
and the node holds or covers what comes before it. -/
theorem consistent (condensed : Condensed deployment archive i elections node)
    (sound : Consensus.Sound archive.history) {rpc : AppendRpc ι}
    (shipment : Shipment deployment archive.history rpc)
    (agrees : node.prevConflict rpc.args = none) :
    ∃ written, written <+: archive.history.reign rpc.term ∧ Carries written rpc.args ∧
      Mergeable (archive.history.log i) written ∧
      (rpc.args.prevLogIndex ≤ node.log.snapshotIndex ∨
        (archive.history.log i).take rpc.args.prevLogIndex =
          written.take rpc.args.prevLogIndex) := by
  obtain ⟨whole, replica, counterpart⟩ := condensed.counterpart
  rw [RaftNode.prevConflict_eq_none] at agrees
  rcases Nat.lt_or_ge node.log.snapshotIndex rpc.args.prevLogIndex with behind | covered
  · have checked : whole.prevConflict rpc.args = none := by
      rw [RaftNode.prevConflict_eq_none, replica.log]
      intro positive
      have read := agrees positive
      rwa [condensed.compaction.log, Log.get_compactTo _ positive behind] at read
    obtain ⟨written, initial, carries, mergeable, same⟩ :=
      replica.consistent sound shipment checked
    exact ⟨written, initial, carries, mergeable, .inr same⟩
  · rcases shipment.content with ⟨written, initial, indexed, carries⟩ | ⟨positive, zero⟩
    · exact ⟨written, initial, carries, Replica.mergeable sound shipment.led initial indexed,
        .inl covered⟩
    · obtain ⟨stamped, same⟩ := agrees positive
      exact absurd (same.trans zero) stamped

/-- The log of a node is settled up to its marker, or entries that do not belong to the
marker follow it. -/
theorem agrees_or_longer (condensed : Condensed deployment archive i elections node)
    (sound : Consensus.Sound archive.history) (led : archive.history.Led node.currentTerm)
    {written : List LogEntry} (initial : written <+: archive.history.reign node.currentTerm)
    (within : node.log.snapshotIndex ≤ written.length) :
    (archive.history.log i).take node.log.snapshotIndex = written.take node.log.snapshotIndex ∨
      node.log.snapshotIndex < (archive.history.log i).length := by
  rcases condensed.compaction.committed with settled | ⟨_, longer⟩
  · exact .inl (sound.settled_take (condensed.compaction.boundary_settled settled)
      condensed.term.le led initial within)
  · exact .inr longer

theorem mergeEntries (condensed : Condensed deployment archive i elections node)
    (sound : Consensus.Sound archive.history) (led : archive.history.Led node.currentTerm)
    {written : List LogEntry} (initial : written <+: archive.history.reign node.currentTerm)
    (mergeable : Mergeable (archive.history.log i) written) {shared : Nat}
    (within : shared ≤ written.length) (longer : node.log.snapshotIndex < written.length)
    (before : shared ≤ node.log.snapshotIndex ∨
      (archive.history.log i).take shared = written.take shared) :
    node.log.mergeEntries (written.drop shared) =
      (Log.whole (graft (archive.history.log i) written)).compactTo node.log.snapshotIndex
        node.log.snapshotTerm := by
  have compaction := condensed.compaction
  refine (congrArg (Log.mergeEntries · _) compaction.log).trans ?_
  by_cases same : (archive.history.log i).take (max shared node.log.snapshotIndex) =
      written.take (max shared node.log.snapshotIndex)
  · exact mergeEntries_compacted mergeable compaction.within
      (Nat.max_le.mpr ⟨within, Nat.le_of_lt longer⟩) same
  · have covered : shared ≤ node.log.snapshotIndex := by
      rcases before with covered | agree
      · exact covered
      · by_contra behind
        rw [Nat.max_eq_left (Nat.le_of_not_le behind)] at same
        exact same agree
    rw [Nat.max_eq_right covered] at same
    have inside := (condensed.agrees_or_longer sound led initial (Nat.le_of_lt longer)).resolve_left
      same
    exact mergeEntries_differing mergeable covered inside longer same

/-- Accepting entries. Those the snapshot covers change nothing; any others extend what
the counterpart adopts. -/
theorem acceptEntries (condensed : Condensed deployment archive i elections node)
    (sound : Consensus.Sound archive.history) {rpc : AppendRpc ι}
    (shipment : Shipment deployment archive.history rpc) (current : node.currentTerm = rpc.term)
    (agrees : node.prevConflict rpc.args = none) (backed : (node.acceptEntries rpc.args).Backed) :
    (condensedContract deployment).Reaches archive i fun next =>
      Condensed deployment next i elections (node.acceptEntries rpc.args) ∧
        next.Reached rpc.term i (rpc.args.prevLogIndex + rpc.args.entries.length) := by
  obtain ⟨written, initial, carries, mergeable, before⟩ := condensed.consistent sound shipment agrees
  have compaction := condensed.compaction
  have below : node.log.snapshotIndex ≤ node.commitIndex := compaction.bottom.trans compaction.applied
  have announced := carries.commit
  obtain ⟨signal, received, accepted⟩ := node.acceptEntries_eq rpc.args
  rw [carries.reach]
  rw [accepted, carries.entries] at backed ⊢
  rcases Nat.lt_or_ge node.log.snapshotIndex written.length with longer | covered
  · have led := shipment.led
    rw [← current] at initial led ⊢
    rw [condensed.mergeEntries sound led initial mergeable carries.within longer before] at backed ⊢
    obtain ⟨next, path, adoption⟩ := condensed.adopts sound led initial mergeable.indexed
    have committed := adoption.committed (Nat.le_of_lt longer)
    have grafted := adoption.log
    obtain ⟨whole, replica, counterpart⟩ := adoption.counterpart
    have within : node.log.snapshotIndex ≤ (next.log i).length := below.trans committed.le_length
    have reach : ((Log.whole (graft (archive.history.log i) written)).compactTo
        node.log.snapshotIndex node.log.snapshotTerm).lastIndex = (next.log i).length := by
      rw [← grafted, Log.lastIndex_compacted within]
    refine ⟨_, path.archived, ⟨⟨whole, replica, counterpart.frame ⟨rfl, rfl, rfl, rfl, rfl⟩
      ⟨rfl, rfl, rfl, rfl, rfl⟩⟩, ?_, ?_, backed⟩, .inl adoption.acked⟩
    · refine compaction.behind sound path (grafted ▸ rfl) within rfl rfl ?_ ?_
      all_goals
        dsimp only [RaftNode.persist, RaftNode.write]
        rw [reach]
        split
      · rename_i ahead
        have inside := committed.le_length
        have applied := compaction.applied
        omega
      · exact compaction.applied
      · exact adoption.settled _ ((current ▸ shipment.decided : Decided _ _ _).mono (Nat.le_refl _)
          (Nat.min_le_left _ _)) ((Nat.min_le_left _ _).trans announced)
      · exact committed
    · intro leads j other
      exact (condensed.progress leads j other).path sound path
  · have unmoved : node.log.mergeEntries (written.drop rpc.args.prevLogIndex) = node.log := by
      rw [node.log.mergeEntries_drop mergeable.indexed,
        List.drop_of_length_le (covered.trans (Nat.le_max_right _ _))]
      rfl
    rw [unmoved, if_neg (Nat.not_lt.mpr (announced.trans (covered.trans below)))] at backed ⊢
    refine .here ⟨condensed.retains sound ⟨rfl, rfl, rfl, rfl, rfl⟩ ⟨rfl, rfl, rfl⟩ rfl backed,
      .inr ⟨compaction.covered ▸ covered, ?_⟩⟩
    exact current ▸ compaction.decided.mono (Nat.le_refl _) covered

theorem covers (condensed : Condensed deployment archive i elections node)
    (sound : Consensus.Sound archive.history)
    (path : (consensusContract deployment).Path i archive.history next) {whole : RaftNode}
    (replica : Replica deployment next i elections whole) (counterpart : Counterpart next i whole node)
    (backed : after.Backed) (role : node.SameRole after)
    (matchIndex : after.matchIndex = node.matchIndex) {index : Nat}
    (ahead : node.log.snapshotIndex < index)
    (compaction : Compaction ⟨next, Function.update archive.covered i index⟩ i after) :
    (condensedContract deployment).Reaches archive i fun next =>
      Condensed deployment next i elections after ∧ next.covered i = index := by
  have covered : archive.covered i ≤ index := condensed.compaction.covered ▸ Nat.le_of_lt ahead
  have path' : (condensedContract deployment).Path i archive
      ⟨next, Function.update archive.covered i index⟩ := path.archived.tail (.cover covered)
  refine ⟨_, path', ⟨?_, compaction, ?_, backed⟩, Function.update_self ..⟩
  · exact ⟨whole, replica, counterpart.frame ⟨rfl, rfl, rfl, rfl, rfl⟩ role⟩
  · rw [role.state, role.currentTerm, matchIndex]
    intro leads j other
    exact path'.keeps (fun archive => archive.Reached _ j _) sound
      (fun sound moved reached => reached.moves sound moved) (condensed.progress leads j other)

omit [DecidableEq ι] in
theorem compactTo (condensed : Condensed deployment archive i elections node) {index : Nat}
    (ahead : node.log.snapshotIndex < index) (term : Nat) :
    node.log.compactTo index term = (Log.whole (archive.history.log i)).compactTo index term := by
  refine (congrArg (Log.compactTo · index term) condensed.compaction.log).trans ?_
  exact (Log.whole _).compactTo_compactTo ahead (Nat.zero_lt_of_lt ahead) _ _

theorem takeSnapshot (condensed : Condensed deployment archive i elections node)
    (sound : Consensus.Sound archive.history) (data : Bytes) (saved : Bool)
    (backed : (node.takeSnapshot data saved).Backed) :
    (condensedContract deployment).Reaches archive i fun next =>
      Condensed deployment next i elections (node.takeSnapshot data saved) := by
  rcases node.takeSnapshot_eq data saved with same | ⟨ahead, built⟩
  · rw [same]
    exact .here condensed
  rw [built] at backed ⊢
  have compaction := condensed.compaction
  have positive : 0 < node.lastApplied := Nat.zero_lt_of_lt ahead
  have settled : Settled archive.history i node.commitIndex := by
    rcases compaction.committed with settled | ⟨same, _⟩
    · exact settled
    · have applied := compaction.applied
      omega
  have below := settled.mono compaction.applied
  obtain ⟨entry, found, chosen⟩ := below.chosen positive (Nat.le_refl _)
  have read : node.log.get node.lastApplied = entry := by
    have here := Log.get_whole_of_found found
    rw [Nat.sub_add_cancel positive] at here
    rw [compaction.log, Log.get_compactTo _ positive ahead]
    exact here
  obtain ⟨whole, replica, counterpart⟩ := condensed.counterpart
  refine (condensed.covers sound .refl replica counterpart backed ⟨rfl, rfl, rfl, rfl, rfl⟩ rfl ahead
    ?_).weaken fun _ covered => covered.1
  exact .cover positive (condensed.compactTo ahead _) below.le_length
    (condensed.term ▸ below.decided) ⟨entry, chosen, congrArg LogEntry.term read.symm⟩
    (Nat.le_refl _) compaction.applied (.inl settled)

theorem installSnapshot (condensed : Condensed deployment archive i elections node)
    (sound : Consensus.Sound archive.history) {rpc : InstallRpc ι}
    (transfer : Transfer deployment archive rpc) (current : node.currentTerm = rpc.term)
    (ahead : node.log.snapshotIndex < rpc.args.lastIncludedIndex) (disk : Disk)
    (backed : ((node.write disk).installSnapshot rpc.args).Backed) :
    (condensedContract deployment).Reaches archive i fun next =>
      Condensed deployment next i elections ((node.write disk).installSnapshot rpc.args) ∧
        next.covered i = rpc.args.lastIncludedIndex := by
  have compaction := condensed.compaction
  have positive : 0 < rpc.args.lastIncludedIndex := Nat.zero_lt_of_lt ahead
  have inside := (sound.decided_reign transfer.decided (Nat.le_refl _) transfer.led).1
  obtain ⟨term, led, decided, marker, indexed, _⟩ := transfer
  rw [← current] at led decided indexed inside
  have applied : max node.lastApplied rpc.args.lastIncludedIndex ≤
      max node.commitIndex rpc.args.lastIncludedIndex := by
    have applied := compaction.applied
    omega
  by_cases foreign : (archive.history.log i).take rpc.args.lastIncludedIndex ≠
      (archive.history.reign node.currentTerm).take rpc.args.lastIncludedIndex ∧
        rpc.args.lastIncludedIndex < (archive.history.log i).length
  · have commit : node.commitIndex ≤ rpc.args.lastIncludedIndex := by
      rcases compaction.committed with settled | ⟨same, _⟩
      · by_contra beyond
        exact foreign.1 (sound.settled_take (settled.mono (Nat.le_of_not_le beyond)) condensed.term.le
          led (List.prefix_refl _) inside)
      · omega
    obtain ⟨whole, replica, counterpart⟩ := condensed.counterpart
    refine condensed.covers sound .refl replica counterpart backed ⟨rfl, rfl, rfl, rfl, rfl⟩ rfl ahead
      ?_
    exact .cover positive (condensed.compactTo ahead _) (Nat.le_of_lt foreign.2) decided
      (marker positive) (Nat.le_max_right _ _) applied (.inr ⟨Nat.max_eq_right commit, foreign.2⟩)
  · have size : ((archive.history.reign node.currentTerm).take
        rpc.args.lastIncludedIndex).length = rpc.args.lastIncludedIndex := by
      rw [List.length_take, Nat.min_eq_left inside]
    obtain ⟨next, path, adoption⟩ := condensed.adopts sound led (List.take_prefix _ _) indexed
    have committed := adoption.committed (Nat.le_of_lt (by rwa [size]))
    have settled := adoption.settled _ decided size.ge
    obtain ⟨whole, replica, counterpart⟩ := adoption.counterpart
    have log : node.log.compactTo rpc.args.lastIncludedIndex rpc.args.lastIncludedTerm =
        (Log.whole (next.log i)).compactTo rpc.args.lastIncludedIndex rpc.args.lastIncludedTerm := by
      rw [condensed.compactTo ahead, adoption.log]
      refine Log.compacted_congr positive ?_
      by_cases same : (archive.history.log i).take rpc.args.lastIncludedIndex =
          (archive.history.reign node.currentTerm).take rpc.args.lastIncludedIndex
      · rw [graft_of_initial (same ▸ List.take_prefix _ _)]
      · have short : (archive.history.log i).length ≤ rpc.args.lastIncludedIndex :=
          Nat.le_of_not_lt fun longer => foreign ⟨same, longer⟩
        rcases graft_cases (archive.history.log i) _ with kept | replaced
        · rw [kept]
        · rw [replaced, List.drop_of_length_le short, List.drop_of_length_le size.le]
    refine condensed.covers sound path replica counterpart backed ⟨rfl, rfl, rfl, rfl, rfl⟩ rfl ahead
      ?_
    obtain ⟨entry, chosen, stamped⟩ := marker positive
    have reached : Settled next i (max node.commitIndex rpc.args.lastIncludedIndex) := by
      rcases Nat.le_total node.commitIndex rpc.args.lastIncludedIndex with below | above
      · rwa [Nat.max_eq_right below]
      · rwa [Nat.max_eq_left above]
    exact @Compaction.cover ι _ _ ⟨next, archive.covered⟩ i _ _ _ positive log settled.le_length
      (path.decided sound decided) ⟨entry, path.chosen sound chosen, stamped⟩ (Nat.le_max_right _ _)
      applied (.inl reached)

end Condensed

end RaftGo
