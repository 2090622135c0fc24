import RaftGo.Cluster.Matching
import RaftGo.Cluster.Safety

/-! Safety of clusters that take, send and install snapshots. What an index holds can
only be asked of a log that has not compacted it; there, logs agree on what is committed,
later leaders have it, and an index and a term determine an entry for the whole run. -/

namespace RaftGo

open Raft KvStore Library Library.Consensus

/-- No membership change, no step down for want of a quorum, and whatever snapshot
arrives can be saved. -/
def Event.Compacting {ι : Type} (cluster : Cluster ι) (event : Event ι) : Prop :=
  event.Permitted LeadersHearQuorum cluster ∧ event.Saves (· = true)

instance {ι : Type} (cluster : Cluster ι) (event : Event ι) :
    Decidable (event.Compacting cluster) :=
  inferInstanceAs (Decidable (_ ∧ _))

/-- Two logs that reach an index hold the same there: the same entry if neither has
compacted it, and entries of the same term if it is the marker of one of them. -/
structure Raft.Log.Concurs (one two : Log) (index : Nat) : Prop where
  reach : index ≤ one.lastIndex ∧ index ≤ two.lastIndex
  term : one.snapshotIndex ≤ index → two.snapshotIndex ≤ index →
    (one.get index).term = (two.get index).term
  entry : one.snapshotIndex < index → two.snapshotIndex < index → one.get index = two.get index

/-- The log has grown, and a further part of it may have been compacted: what lies behind
the later marker is as it was, and the marker carries the term of the entry it stands for. -/
structure Raft.Log.Grows (log later : Log) : Prop where
  snapshotIndex : log.snapshotIndex ≤ later.snapshotIndex
  lastIndex : log.lastIndex ≤ later.lastIndex
  entry : ∀ index, later.snapshotIndex < index → index ≤ log.lastIndex →
    later.get index = log.get index
  marker : 0 < later.snapshotIndex → later.snapshotIndex ≤ log.lastIndex →
    (log.get later.snapshotIndex).term = later.snapshotTerm

section

variable {ι : Type} [Fintype ι]

/-- The log reaches an index and, unless it has compacted it, holds what was chosen. -/
structure Raft.Log.Records (log : Log) (history : Consensus.State ι LogEntry) (index : Nat) :
    Prop where
  reach : index ≤ log.lastIndex
  marker : log.snapshotIndex = index → ∃ entry, Chosen history index entry ∧
    entry.term = log.snapshotTerm
  entry : log.snapshotIndex < index → Chosen history index (log.get index)

/-- What the history still knows of a compacting node as it was in some state of the run. -/
structure Recalled (history : Consensus.State ι LogEntry) (i : ι) (node : RaftNode) : Prop where
  log : ∃ whole, Coherent history whole ∧ node.log.snapshotIndex ≤ whole.length ∧
    node.log = (Log.whole whole).compactTo node.log.snapshotIndex node.log.snapshotTerm
  marker : 0 < node.log.snapshotIndex → ∃ entry,
    Chosen history node.log.snapshotIndex entry ∧ entry.term = node.log.snapshotTerm
  decided : Decided history node.currentTerm node.commitIndex
  committed : ∀ index, 0 < index → index ≤ node.commitIndex → node.log.Records history index
  led : node.state = .leader → history.leader node.currentTerm = some i ∧
    node.log.Agrees (history.reign node.currentTerm) node.log.lastIndex ∧
    ∃ standing, history.slate node.currentTerm i = some standing ∧
      standing.length ≤ node.log.lastIndex

end

section Recall

variable {ι : Type} [Fintype ι] [DecidableEq ι] {deployment : Deployment ι}
  {history next : Consensus.State ι LogEntry} {archive : Archive ι} {i : ι} {elections : Nat}
  {node : RaftNode}

/-- What is chosen at a marker is what the marker says, whoever asks. -/
theorem Raft.Log.Records.term_eq {log : Log} {index : Nat} (records : log.Records history index)
    (sound : Consensus.Sound history) {entry : LogEntry} (chosen : Chosen history index entry)
    (reached : log.snapshotIndex ≤ index) : (log.get index).term = entry.term := by
  rcases reached.eq_or_lt with same | behind
  · obtain ⟨marked, chosen', stamped⟩ := records.marker same
    rw [sound.chosen_unique chosen chosen', stamped, ← same, Log.get_snapshotIndex]
    rfl
  · rw [sound.chosen_unique chosen (records.entry behind)]

theorem Raft.Log.Records.concurs {one two : Log} {index : Nat} (first : one.Records history index)
    (second : two.Records history index) (sound : Consensus.Sound history) :
    one.Concurs two index where
  reach := ⟨first.reach, second.reach⟩
  term reached reached' := by
    rcases reached.eq_or_lt with same | behind
    · obtain ⟨entry, chosen, _⟩ := first.marker same
      rw [first.term_eq sound chosen reached, second.term_eq sound chosen reached']
    · rw [second.term_eq sound (first.entry behind) reached']
  entry behind behind' := sound.chosen_unique (first.entry behind) (second.entry behind')

theorem Raft.Log.Records.moves {log : Log} {index : Nat} (records : log.Records history index)
    (sound : Consensus.Sound history) (moved : Consensus.Step history i next) :
    log.Records next index where
  reach := records.reach
  marker same := by
    obtain ⟨entry, chosen, stamped⟩ := records.marker same
    exact ⟨entry, sound.chosen_step moved chosen, stamped⟩
  entry behind := sound.chosen_step moved (records.entry behind)

omit [Fintype ι] [DecidableEq ι] in
theorem Raft.Log.Agrees.extend {log : Log} {entries more : List LogEntry} {index : Nat}
    (agrees : log.Agrees entries index) (longer : entries <+: more) : log.Agrees more index where
  reach := agrees.reach
  behind position above below := getElem?_of_initial longer (agrees.behind position above below)
  marker positive := by
    obtain ⟨entry, found, stamped⟩ := agrees.marker positive
    exact ⟨entry, getElem?_of_initial longer found, stamped⟩

omit [DecidableEq ι] in
theorem Compaction.records (compaction : Compaction archive i node) {index : Nat}
    (positive : 0 < index) (below : index ≤ node.commitIndex) :
    node.log.Records archive.history index := by
  have reach : index ≤ node.log.lastIndex := by
    rw [compaction.lastIndex]
    rcases compaction.committed with settled | ⟨same, longer⟩
    · exact below.trans settled.le_length
    · omega
  refine ⟨reach, ?_, fun behind => ?_⟩
  · rintro rfl
    exact compaction.marker positive
  · rcases compaction.committed with settled | ⟨same, _⟩
    · obtain ⟨entry, found, chosen⟩ := settled.chosen positive below
      have held := compaction.get behind (compaction.lastIndex ▸ reach)
      rw [found] at held
      exact Option.some.inj held ▸ chosen
    · omega

theorem Condensed.recalled (condensed : Condensed deployment archive i elections node)
    (sound : Consensus.Sound archive.history) : Recalled archive.history i node where
  log := ⟨archive.history.log i, sound.logCoherent i, condensed.compaction.within,
    condensed.compaction.log⟩
  marker := condensed.compaction.marker
  decided := condensed.decided_commit
  committed _ positive below := condensed.compaction.records positive below
  led leads := by
    obtain ⟨whole, replica, counterpart, leading⟩ := condensed.leads leads
    have elected := counterpart.currentTerm ▸ replica.voting.leader leading
    obtain ⟨standing, _, slated, written, _⟩ := sound.elected _ _ elected
    refine ⟨elected, condensed.leader_agrees sound leads, standing, slated, ?_⟩
    rw [condensed.compaction.lastIndex, (condensed.reigns sound leads).2]
    exact written.length_le

theorem Recalled.moves (recalled : Recalled history i node) (sound : Consensus.Sound history)
    {actor : ι} (moved : Consensus.Step history actor next) : Recalled next i node where
  log := by
    obtain ⟨whole, coherent, shape⟩ := recalled.log
    exact ⟨whole, coherent.evolves moved.evolves, shape⟩
  marker positive := by
    obtain ⟨entry, chosen, stamped⟩ := recalled.marker positive
    exact ⟨entry, sound.chosen_step moved chosen, stamped⟩
  decided := sound.decided_step moved recalled.decided
  committed index positive below := (recalled.committed index positive below).moves sound moved
  led leads := by
    obtain ⟨leading, agrees, standing, slated, within⟩ := recalled.led leads
    exact ⟨moved.evolves.leader leading, agrees.extend (moved.evolves.reign ⟨i, leading⟩), standing,
      moved.evolves.slate slated, within⟩

theorem Recalled.step (recalled : Recalled archive.history i node) {later : Archive ι}
    (sound : Consensus.Sound archive.history)
    (moved : (condensedContract deployment).Step archive later) :
    Recalled later.history i node := by
  obtain ⟨_, moved⟩ := moved
  cases moved with
  | write moved => exact recalled.moves sound moved
  | cover ahead => exact recalled

/-- Every run is related to an archive that recalls all states passed through. -/
theorem recalled_path (mesh : deployment.FullMesh)
    {moves : List (Move (Cluster ι) (Event ι))} {start cluster : Cluster ι}
    (trace : deployment.system.Trace (fun cluster event => event.Compacting cluster)
      start moves cluster) (known : (plainShape deployment).Holds start)
    (related : (condensedContract deployment).Related archive start) :
    ∃ later, Relation.ReflTransGen (condensedContract deployment).Step archive later ∧
      (plainShape deployment).Holds cluster ∧
      (condensedContract deployment).Related later cluster ∧
      ∀ seen ∈ System.visited start moves, ∀ i,
        Recalled later.history i (seen.process i).node :=
  Contract.Kept.escort
    (fun cluster (archive : Archive ι) => ∀ i, Recalled archive.history i (cluster.process i).node)
    (condensed_kept mesh) (fun _ _ permitted => permitted)
    (plain_step fun _ _ _ permitted => permitted.1)
    (fun _ _ _ sound moved recalled i => (recalled i).step sound moved)
    (fun _ _ _ _ _ _ _ related i => Condensed.recalled (related.holds.process i) related.sound)
    trace known related (fun i => Condensed.recalled (related.holds.process i) related.sound)

theorem recalled_of_run (mesh : deployment.FullMesh)
    {moves : List (Move (Cluster ι) (Event ι))} {cluster : Cluster ι}
    (trace : deployment.system.Trace (fun cluster event => event.Compacting cluster)
      deployment.initial moves cluster) :
    ∃ archive, (condensedContract deployment).Related archive cluster ∧
      ∀ seen ∈ System.visited deployment.initial moves, ∀ i,
        Recalled archive.history i (seen.process i).node := by
  obtain ⟨archive, _, _, related, recalled⟩ :=
    recalled_path mesh trace plain_initial condensed_initial
  exact ⟨archive, related, recalled⟩

theorem Condensed.truncates_above (condensed : Condensed deployment archive i elections node)
    (sound : Consensus.Sound archive.history) {rpc : AppendRpc ι}
    (shipment : Shipment deployment archive.history rpc) {index : Nat}
    (truncates : node.truncationIndex rpc.args = some index) : node.commitIndex < index := by
  obtain ⟨current, agrees, cut⟩ := RaftNode.truncationIndex_cases truncates
  obtain ⟨written, initial, carries, mergeable, _⟩ :=
    condensed.consistent sound shipment agrees
  obtain ⟨entry, sent, rfl, behind, differs⟩ := node.log.truncation_conflict cut
  by_contra reached
  have below : entry.index ≤ node.commitIndex := Nat.le_of_not_lt reached
  have positive := Nat.zero_lt_of_lt behind
  have records := condensed.compaction.records positive below
  have decided := condensed.decided_commit.mono (Nat.le_refl _) below
  have order : node.currentTerm ≤ rpc.term := current.trans_eq shipment.term
  have reigning := sound.chosen_reign decided (records.entry behind) order shipment.led
  -- the conflicting entry stands at its index of what the leader has written
  have placed : written[entry.index - 1]? = some entry := by
    rw [carries.entries] at sent
    obtain ⟨position, found⟩ := List.mem_iff_getElem?.mp sent
    rw [List.getElem?_drop] at found
    rw [mergeable.indexed _ _ found, Nat.add_sub_cancel]
    exact found
  have theirs := getElem?_of_initial initial placed
  rw [reigning] at theirs
  exact differs (congrArg LogEntry.term (Option.some.inj theirs))

/-- Two nodes that have committed an index at any two times held the same there at those
times, as far as they had not compacted it, and no `AppendEntries` truncates a log at or
below the `commitIndex` of its node. -/
theorem compacted_logs_concur (mesh : deployment.FullMesh)
    {moves : List (Move (Cluster ι) (Event ι))} {cluster : Cluster ι}
    (trace : deployment.system.Trace (fun cluster event => event.Compacting cluster)
      deployment.initial moves cluster) :
    (∀ one ∈ System.visited deployment.initial moves,
      ∀ two ∈ System.visited deployment.initial moves, ∀ p q index, 0 < index →
        index ≤ (one.process p).node.commitIndex → index ≤ (two.process q).node.commitIndex →
        (one.process p).node.log.Concurs (two.process q).node.log index) ∧
    ∀ move ∈ moves, ∀ i args index, Delivers i args move →
      (move.before.process i).node.truncationIndex args = some index →
        (move.before.process i).node.commitIndex < index := by
  constructor
  · obtain ⟨archive, related, recalled⟩ := recalled_of_run mesh trace
    intro one first two second p q index positive below below'
    exact ((recalled one first p).committed index positive below).concurs
      ((recalled two second q).committed index positive below') related.sound
  · intro move member i args index delivers truncates
    obtain ⟨prior, earlier, _⟩ := trace.of_move member
    obtain ⟨archive, related, _⟩ := recalled_of_run mesh earlier
    obtain ⟨call, rpc, found, rfl, _⟩ := delivers
    exact Condensed.truncates_above (related.holds.process i) related.sound
      (related.holds.append rpc (List.mem_of_getElem? found)).shipment truncates

/-- Node 1 and node 3, which got the entry in a snapshot, have committed it. -/
theorem compacted_logs_concur_eager :
    ∃ moves cluster, eager.system.Trace (fun cluster event => event.Compacting cluster)
        eager.initial moves cluster ∧
      (cluster.process 2).node.log.snapshotIndex = 1 ∧
      1 ≤ (cluster.process 0).node.commitIndex ∧ 1 ≤ (cluster.process 2).node.commitIndex ∧
      (cluster.process 0).node.log.Concurs (cluster.process 2).node.log 1 := by
  obtain ⟨moves, cluster, trace, checked⟩ := eager.system.exists_trace
    (fun cluster event => event.Compacting cluster) eager.initial
    (committedAndCompacted ++ snapshotSent true)
    (fun _ cluster => decide ((cluster.process 2).node.log.snapshotIndex = 1 ∧
      1 ≤ (cluster.process 0).node.commitIndex ∧ 1 ≤ (cluster.process 2).node.commitIndex))
    (by decide +kernel)
  obtain ⟨marked, one, two⟩ := of_decide_eq_true checked
  exact ⟨moves, cluster, trace, marked, one, two, (compacted_logs_concur eager_mesh trace).1 cluster
    trace.mem_visited cluster trace.mem_visited 0 2 1 (by decide) one two⟩

/-- What is decided by an earlier term is recorded by whoever leads a later one. -/
theorem Recalled.leader_records (recalled : Recalled history i node)
    (sound : Consensus.Sound history) (leads : node.state = .leader) {term index : Nat}
    (positive : 0 < index) (decided : Decided history term index)
    (order : term < node.currentTerm) : node.log.Records history index := by
  obtain ⟨leading, agrees, standing, slated, within⟩ := recalled.led leads
  rcases decided with nothing | ⟨earlier, bound, reached, committed, below⟩
  · omega
  have complete := (sound.elected_complete committed (reached.trans_lt order) leading slated)
  have bounded := committed.bounded
  have reach : index ≤ node.log.lastIndex := by
    have size := complete.length_le
    rw [List.length_take] at size
    omega
  have found : (history.reign earlier)[index - 1]? = some ((history.reign earlier)[index - 1]) :=
    List.getElem?_eq_getElem (by omega)
  have chosen : Chosen history index _ := ⟨positive, earlier, bound, committed, below, found⟩
  refine ⟨reach, ?_, fun behind => ?_⟩
  · rintro rfl
    exact recalled.marker positive
  · have reigning := sound.chosen_reign (.inr ⟨earlier, bound, Nat.le_refl _, committed, below⟩)
      chosen (reached.trans order.le) ⟨i, leading⟩
    rw [agrees.behind index behind reach] at reigning
    exact Option.some.inj reigning ▸ chosen

/-- What a leader has committed, compacted or not, is in the log of every node that
becomes leader in a later term, at that moment. -/
theorem compacted_leader_completeness (mesh : deployment.FullMesh)
    {moves : List (Move (Cluster ι) (Event ι))} {cluster : Cluster ι}
    (trace : deployment.system.Trace (fun cluster event => event.Compacting cluster)
      deployment.initial moves cluster)
    {commit election : Move (Cluster ι) (Event ι)} (one : commit ∈ moves)
    (two : election ∈ moves) {p q : ι} {term later index : Nat}
    (commits : Commits p term index commit) (elected : Elects q later election)
    (order : term < later) : ∀ k, 0 < k → k ≤ index →
      (election.after.process q).node.log.Concurs (commit.after.process p).node.log k := by
  obtain ⟨archive, related, recalled⟩ := recalled_of_run mesh trace
  have old := recalled _ (System.mem_visited_of_move one) p
  have new := recalled _ (System.mem_visited_of_move two) q
  obtain ⟨_, _, _, reached, _, within⟩ := commits
  obtain ⟨_, leads, opened⟩ := elected
  intro k positive below
  have decided := old.decided.mono (Nat.le_refl _) (below.trans within)
  have held := new.leader_records related.sound leads positive decided (by omega)
  exact held.concurs (old.committed k positive (below.trans within)) related.sound

/-- Node 3, whose log is nothing but the marker of the snapshot, becomes leader. -/
theorem compacted_leader_completeness_eager :
    ∃ moves cluster commit election, eager.system.Trace
        (fun cluster event => event.Compacting cluster) eager.initial moves cluster ∧
      commit ∈ moves ∧ election ∈ moves ∧ Commits 0 1 1 commit ∧ Elects 2 2 election ∧
      (election.after.process 2).node.log.Concurs (commit.after.process 0).node.log 1 := by
  obtain ⟨moves, cluster, trace, checked⟩ := eager.system.exists_trace
    (fun cluster event => event.Compacting cluster) eager.initial
    (committedAndCompacted ++ snapshotSent true ++ successorElection)
    (fun moves _ => (moves.any fun move => decide (Commits 0 1 1 move)) &&
      moves.any fun move => decide (Elects 2 2 move))
    (by decide +kernel)
  obtain ⟨one, two⟩ := Bool.and_eq_true_iff.mp checked
  obtain ⟨commit, member, found⟩ := List.any_eq_true.mp one
  obtain ⟨election, member', found'⟩ := List.any_eq_true.mp two
  have commits := of_decide_eq_true found
  have elects := of_decide_eq_true found'
  exact ⟨moves, cluster, commit, election, trace, member, member', commits, elects,
    compacted_leader_completeness eager_mesh trace member member' commits elects (by decide) 1
      (by decide) (by decide)⟩

/-- An index and a term determine an entry and everything before it, on all nodes and for
the whole run: two logs that hold an entry of the same term at the same index, at any two
times, agree up to it wherever neither has compacted. -/
theorem compacted_log_matching (mesh : deployment.FullMesh)
    {moves : List (Move (Cluster ι) (Event ι))} {cluster : Cluster ι}
    (trace : deployment.system.Trace (fun cluster event => event.Compacting cluster)
      deployment.initial moves cluster)
    {one two : Cluster ι} (first : one ∈ System.visited deployment.initial moves)
    (second : two ∈ System.visited deployment.initial moves) {p q : ι} {index : Nat}
    (behind : (one.process p).node.log.snapshotIndex < index)
    (within : index ≤ (one.process p).node.log.lastIndex)
    (behind' : (two.process q).node.log.snapshotIndex < index)
    (within' : index ≤ (two.process q).node.log.lastIndex)
    (same : ((one.process p).node.log.get index).term = ((two.process q).node.log.get index).term) :
    ∀ k ≤ index, (one.process p).node.log.snapshotIndex < k →
      (two.process q).node.log.snapshotIndex < k →
      (one.process p).node.log.get k = (two.process q).node.log.get k := by
  obtain ⟨archive, related, recalled⟩ := recalled_of_run mesh trace
  have reads {node : RaftNode} {i : ι} (recalled : Recalled archive.history i node) :
      ∃ whole, Coherent archive.history whole ∧ ∀ k, node.log.snapshotIndex < k →
        k ≤ node.log.lastIndex → whole[k - 1]? = some (node.log.get k) := by
    obtain ⟨whole, coherent, covered, shape⟩ := recalled.log
    refine ⟨whole, coherent, fun k above below => ?_⟩
    rw [shape, Log.lastIndex_compacted covered] at below
    have inside : k - 1 < whole.length := by omega
    have found := List.getElem?_eq_getElem inside
    rw [shape, ← Nat.sub_add_cancel (show 1 ≤ k by omega), Log.get_compacted (by omega) found]
    exact found
  obtain ⟨whole, coherent, read⟩ := reads (recalled one first p)
  obtain ⟨whole', coherent', read'⟩ := reads (recalled two second q)
  have agree := coherent.agree coherent' (read index behind within)
    (read' index behind' within') same
  intro k below above above'
  have found := congrArg (·[k - 1]?) agree
  simp only [List.getElem?_take_of_lt (show k - 1 < index - 1 + 1 by omega),
    read k above (below.trans within), read' k above' (below.trans within'),
    Option.some.injEq] at found
  exact found

/-- Node 1 writes a second entry behind its marker and sends it to node 3. -/
def writtenBehind : List (Event (Fin 3)) := [
  .run (.internal node1 (.call setOp)),
  .run (.serveAppend 4 node3)]

theorem compacted_log_matching_eager :
    ∃ moves cluster, eager.system.Trace (fun cluster event => event.Compacting cluster)
        eager.initial moves cluster ∧
      (cluster.process 0).node.log.snapshotIndex < 2 ∧
      (cluster.process 2).node.log.snapshotIndex < 2 ∧
      (cluster.process 0).node.log.get 2 = (cluster.process 2).node.log.get 2 := by
  obtain ⟨moves, cluster, trace, checked⟩ := eager.system.exists_trace
    (fun cluster event => event.Compacting cluster) eager.initial
    (committedAndCompacted ++ snapshotSent true ++ writtenBehind)
    (fun _ cluster => decide ((cluster.process 0).node.log.snapshotIndex < 2 ∧
      2 ≤ (cluster.process 0).node.log.lastIndex ∧
      (cluster.process 2).node.log.snapshotIndex < 2 ∧
      2 ≤ (cluster.process 2).node.log.lastIndex ∧
      ((cluster.process 0).node.log.get 2).term = ((cluster.process 2).node.log.get 2).term))
    (by decide +kernel)
  obtain ⟨behind, within, behind', within', same⟩ := of_decide_eq_true checked
  exact ⟨moves, cluster, trace, behind, behind', compacted_log_matching eager_mesh trace
    trace.mem_visited trace.mem_visited behind within behind' within' same 2 (Nat.le_refl _) behind
    behind'⟩

omit [DecidableEq ι] in
/-- A log that agrees with a longer version of a list, compacted no less, has grown. -/
theorem Raft.Log.Agrees.grows {log later : Log} {entries : List LogEntry}
    (agrees : log.Agrees entries log.lastIndex) (agrees' : later.Agrees entries later.lastIndex)
    (compacted : log.snapshotIndex ≤ later.snapshotIndex)
    (longer : log.lastIndex ≤ later.lastIndex) : log.Grows later where
  snapshotIndex := compacted
  lastIndex := longer
  entry index behind within := by
    have new := agrees'.behind index behind (within.trans longer)
    rw [agrees.behind index (compacted.trans_lt behind) within] at new
    exact (Option.some.inj new).symm
  marker positive within := by
    obtain ⟨entry, found, stamped⟩ := agrees'.marker positive
    rcases compacted.eq_or_lt with same | behind
    · obtain ⟨entry', found', stamped'⟩ := agrees.marker (same ▸ positive)
      rw [same, found] at found'
      rw [← same, Log.get_snapshotIndex, ← stamped, Option.some.inj found']
      exact stamped'.symm
    · rw [agrees.behind _ behind within] at found
      rw [Option.some.inj found]
      exact stamped

theorem Archive.evolves_path {later : Archive ι}
    (path : Relation.ReflTransGen (condensedContract deployment).Step archive later) :
    Evolves archive.history later.history ∧ ∀ j, archive.covered j ≤ later.covered j := by
  induction path with
  | refl => exact ⟨.refl _, fun _ => Nat.le_refl _⟩
  | tail _ moved ih =>
    obtain ⟨_, moved⟩ := moved
    exact ⟨ih.1.trans moved.evolves, fun j => (ih.2 j).trans (moved.covered j)⟩

/-- A leader never overwrites or drops an entry of its log: as long as it leads a term, its
log only grows, whatever it compacts meanwhile. -/
theorem leader_append_only (mesh : deployment.FullMesh)
    {before after : List (Move (Cluster ι) (Event ι))} {middle cluster : Cluster ι}
    (first : deployment.system.Trace (fun cluster event => event.Compacting cluster)
      deployment.initial before middle)
    (second : deployment.system.Trace (fun cluster event => event.Compacting cluster)
      middle after cluster)
    (leads : (middle.process i).node.state = .leader)
    (leads' : (cluster.process i).node.state = .leader)
    (same : (cluster.process i).node.currentTerm = (middle.process i).node.currentTerm) :
    (middle.process i).node.log.Grows (cluster.process i).node.log := by
  obtain ⟨archive, _, known, related, _⟩ := recalled_path mesh first plain_initial condensed_initial
  obtain ⟨later, path, _, related', _⟩ := recalled_path mesh second known related
  obtain ⟨evolves, covers⟩ := Archive.evolves_path path
  have old : Condensed deployment archive i _ _ := related.holds.process i
  have new : Condensed deployment later i _ _ := related'.holds.process i
  obtain ⟨led, reign⟩ := old.reigns related.sound leads
  obtain ⟨_, reign'⟩ := new.reigns related'.sound leads'
  rw [same] at reign'
  have extended := evolves.reign led
  refine Log.Agrees.grows ((old.leader_agrees related.sound leads).extend extended)
    (same ▸ new.leader_agrees related'.sound leads') ?_ ?_
  · rw [← old.compaction.covered, ← new.compaction.covered]
    exact covers i
  · rw [old.compaction.lastIndex, new.compaction.lastIndex, reign, reign']
    exact extended.length_le

/-- Node 1 has compacted its first entry and written a second one since. -/
theorem leader_append_only_eager :
    ∃ before middle after cluster,
      eager.system.Trace (fun cluster event => event.Compacting cluster)
        eager.initial before middle ∧
      eager.system.Trace (fun cluster event => event.Compacting cluster) middle after cluster ∧
      (middle.process 0).node.log.snapshotIndex = 0 ∧
      (middle.process 0).node.log.lastIndex = 1 ∧
      (cluster.process 0).node.log.snapshotIndex = 1 ∧
      (cluster.process 0).node.log.lastIndex = 2 ∧
      (middle.process 0).node.log.Grows (cluster.process 0).node.log := by
  obtain ⟨before, middle, after, cluster, first, second, checked⟩ := eager.system.exists_traces
    (fun cluster event => event.Compacting cluster) eager.initial
    (committedAndCompacted.take (firstElection.length + 1))
    (committedAndCompacted.drop (firstElection.length + 1) ++ snapshotSent true ++ writtenBehind)
    (fun middle cluster => decide ((middle.process 0).node.log.snapshotIndex = 0 ∧
      (middle.process 0).node.log.lastIndex = 1 ∧
      (cluster.process 0).node.log.snapshotIndex = 1 ∧
      (cluster.process 0).node.log.lastIndex = 2 ∧
      (middle.process 0).node.state = .leader ∧ (cluster.process 0).node.state = .leader ∧
      (cluster.process 0).node.currentTerm = (middle.process 0).node.currentTerm))
    (by decide +kernel)
  obtain ⟨bare, one, marked, two, leads, leads', same⟩ := of_decide_eq_true checked
  exact ⟨before, middle, after, cluster, first, second, bare, one, marked, two,
    leader_append_only eager_mesh first second leads leads' same⟩

end Recall

end RaftGo
