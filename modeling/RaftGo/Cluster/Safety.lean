import RaftGo.Cluster.ElectionSafety
import RaftGo.Cluster.Uncompacted

/-! Safety of clusters without snapshots, membership changes and quorum losses:
committed entries agree and are never truncated, later leaders have them, logs
match, and what a client was told is kept by a majority. -/

namespace RaftGo

open Raft KvStore Library Library.Consensus

section

variable {ι : Type} [Fintype ι] [DecidableEq ι] {deployment : Deployment ι}

/-- What the history still knows of a node as it was in some state of the run. -/
structure Remembered (ghost : Consensus.State ι LogEntry) (i : ι) (node : RaftNode) : Prop where
  whole : node.log = .whole node.log.rest
  committed : node.commitIndex = 0 ∨ ∃ term bound, term ≤ node.currentTerm ∧
    Committed ghost term bound ∧ node.commitIndex ≤ bound ∧
    (ghost.reign term).take node.commitIndex <+: node.log.rest
  elected : node.state = .leader → ghost.leader node.currentTerm = some i ∧
    ∃ standing, ghost.slate node.currentTerm i = some standing ∧ standing <+: node.log.rest

section Memory

variable {ghost next : Consensus.State ι LogEntry} {i : ι} {elections : Nat} {node : RaftNode}

omit [DecidableEq ι] in
theorem Replica.remembered (replica : Replica deployment ghost i elections node)
    (sound : Consensus.Sound ghost) : Remembered ghost i node where
  whole := by rw [replica.log]; rfl
  committed := by
    rw [replica.log, ← replica.voting.term]
    exact replica.settled
  elected leads := by
    have leading := replica.voting.leader leads
    obtain ⟨standing, _, slated, written, _⟩ := sound.elected _ _ leading
    refine ⟨leading, standing, slated, ?_⟩
    rw [replica.log, Log.rest_whole, replica.reigns sound leads]
    exact written

theorem Remembered.moves (remembered : Remembered ghost i node) (sound : Consensus.Sound ghost)
    {actor : ι} (moved : Consensus.Step ghost actor next) : Remembered next i node where
  whole := remembered.whole
  committed := by
    rcases remembered.committed with nothing | ⟨term, bound, reached, committed, below, held⟩
    · exact .inl nothing
    · refine .inr ⟨term, bound, reached, sound.committed_step moved committed, below, ?_⟩
      rw [sound.take_step moved (below.trans committed.bounded)]
      exact held
  elected leads := by
    obtain ⟨leading, standing, slated, initial⟩ := remembered.elected leads
    exact ⟨moved.evolves.leader leading, standing, moved.evolves.slate slated, initial⟩

omit [DecidableEq ι] in
/-- Below its `commitIndex` the log of a node held the chosen entries. -/
theorem Remembered.chosen (remembered : Remembered ghost i node) {index : Nat}
    (positive : 0 < index) (below : index ≤ node.commitIndex) :
    index ≤ node.log.lastIndex ∧ Chosen ghost index (node.log.get index) := by
  rcases remembered.committed with nothing | ⟨term, bound, _, committed, within, held⟩
  · omega
  have bounded := committed.bounded
  have found : (ghost.reign term)[index - 1]? = some ((ghost.reign term)[index - 1]) :=
    List.getElem?_eq_getElem (by omega)
  have kept : node.log.rest[index - 1]? = some ((ghost.reign term)[index - 1]) := by
    refine getElem?_of_initial held ?_
    rw [List.getElem?_take_of_lt (by omega)]
    exact found
  have inside := (List.getElem?_eq_some_iff.mp kept).1
  rw [remembered.whole, Log.lastIndex_whole, Log.get_whole positive, kept]
  exact ⟨by omega, positive, term, bound, committed, by omega, found⟩

end Memory

/-- Every run is related to a history that remembers all states passed through. -/
theorem remembered_of_run (mesh : deployment.FullMesh)
    {moves : List (Move (Cluster ι) (Event ι))} {cluster : Cluster ι}
    (trace : deployment.system.Trace (fun cluster event => event.Permitted Uncompacted cluster)
      deployment.initial moves cluster) :
    ∃ ghost, (consensusContract deployment).Related ghost cluster ∧
      ∀ seen ∈ System.visited deployment.initial moves, ∀ i,
        Remembered ghost i (seen.process i).node :=
  Contract.Kept.run (fun cluster ghost => ∀ i, Remembered ghost i (cluster.process i).node)
    (consensus_kept mesh) (fun _ event permitted => ⟨permitted, event.saves_any⟩)
    (plain_step fun _ _ _ permitted => permitted.1.1)
    (fun _ _ _ related i => (related.holds.process i).1.remembered related.sound)
    (fun _ _ _ sound ⟨_, moved⟩ remembered i => (remembered i).moves sound moved)
    trace plain_initial consensus_initial

/-- In this move an `AppendEntries` request is handled by node `i`; the handler may
also be cut short by a crash. -/
def Delivers (i : ι) (args : AppendEntriesArgs) (move : Move (Cluster ι) (Event ι)) : Prop :=
  ∃ index rpc, move.before.appends[index]? = some rpc ∧ rpc.args = args ∧
    (move.event = .run (.serveAppend index i) ∨
      ∃ victim writes, move.event = .interrupt (.serveAppend index i) victim writes)

/-- The handler of `AppendEntries` truncates only above `commitIndex`. -/
theorem Replica.truncates_above {ghost : Consensus.State ι LogEntry} {i : ι} {elections : Nat}
    {node : RaftNode} (replica : Replica deployment ghost i elections node)
    (sound : Consensus.Sound ghost) {rpc : AppendRpc ι} (shipment : Shipment deployment ghost rpc)
    {index : Nat} (truncates : node.truncationIndex rpc.args = some index) :
    node.commitIndex < index := by
  obtain ⟨current, agrees, cut⟩ := RaftNode.truncationIndex_cases truncates
  obtain ⟨written, initial, carries, mergeable, same⟩ := replica.consistent sound shipment agrees
  rw [replica.log, carries.entries] at cut
  obtain ⟨positive, one, two, held, sent, differs⟩ :=
    truncation_whole mergeable same carries.within cut
  by_contra below
  rcases replica.settled with nothing | ⟨term, bound, reached, committed, within, kept⟩
  · omega
  -- the entry below commitIndex stands in the reign the request comes from
  have order : term ≤ rpc.term := by
    rw [replica.voting.term] at reached
    have same := shipment.term
    omega
  have reign := sound.committed_reign committed order shipment.led
  have bounded := committed.bounded
  have chosen : ((ghost.reign term).take node.commitIndex)[index - 1]? =
      some ((ghost.reign term)[index - 1]) := by
    rw [List.getElem?_take_of_lt (by omega)]
    exact List.getElem?_eq_getElem (by omega)
  have own := getElem?_of_initial kept chosen
  have theirs := getElem?_of_initial ((List.take_prefix_take_left within).trans reign) chosen
  have sent' := getElem?_of_initial initial sent
  rw [own] at held
  rw [theirs] at sent'
  exact differs (congrArg LogEntry.term ((Option.some.inj held).symm.trans (Option.some.inj sent')))

/-- State machine safety: two nodes that have committed an index at any two times
hold the same entry there at those times, and no `AppendEntries` truncates a log
at or below the `commitIndex` of its node. -/
theorem state_machine_safety (mesh : deployment.FullMesh)
    {moves : List (Move (Cluster ι) (Event ι))} {cluster : Cluster ι}
    (trace : deployment.system.Trace (fun cluster event => event.Permitted Uncompacted cluster)
      deployment.initial moves cluster) :
    (∀ one ∈ System.visited deployment.initial moves,
      ∀ two ∈ System.visited deployment.initial moves, ∀ p q index, 0 < index →
        index ≤ (one.process p).node.commitIndex → index ≤ (two.process q).node.commitIndex →
        index ≤ (one.process p).node.log.lastIndex ∧
          index ≤ (two.process q).node.log.lastIndex ∧
          (one.process p).node.log.get index = (two.process q).node.log.get index) ∧
    ∀ move ∈ moves, ∀ i args index, Delivers i args move →
      (move.before.process i).node.truncationIndex args = some index →
        (move.before.process i).node.commitIndex < index := by
  constructor
  · obtain ⟨ghost, related, remembered⟩ := remembered_of_run mesh trace
    intro one first two second p q index positive below below'
    obtain ⟨within, chosen⟩ := (remembered one first p).chosen positive below
    obtain ⟨within', chosen'⟩ := (remembered two second q).chosen positive below'
    exact ⟨within, within', related.sound.chosen_unique chosen chosen'⟩
  · intro move member i args index delivers truncates
    obtain ⟨prior, earlier, _⟩ := trace.of_move member
    obtain ⟨ghost, related, _⟩ := remembered_of_run mesh earlier
    obtain ⟨call, rpc, found, rfl, _⟩ := delivers
    exact (related.holds.process i).1.truncates_above related.sound
      (related.holds.append rpc (List.mem_of_getElem? found)) truncates

end

/-- Node 1 replicates a write to node 3 and commits it. -/
def firstWrite : List (Event (Fin 3)) := [
  .run (.internal node1 (.call setOp)),
  .run (.internal node1 (.registerCall 0)),
  .run (.serveAppend 1 node3),
  .run (.resumeAppend 1)]

/-- A second write tells node 3 that the first one is committed. -/
def secondWrite : List (Event (Fin 3)) := [
  .run (.internal node1 (.call setOp)),
  .run (.serveAppend 3 node3)]

theorem state_machine_safety_bootstrap :
    ∃ moves cluster, bootstrap.system.Trace
        (fun cluster event => event.Permitted Uncompacted cluster) bootstrap.initial moves cluster ∧
      1 ≤ (cluster.process 0).node.commitIndex ∧ 1 ≤ (cluster.process 2).node.commitIndex ∧
      (cluster.process 0).node.log.get 1 = (cluster.process 2).node.log.get 1 := by
  obtain ⟨moves, cluster, trace, checked⟩ := bootstrap.system.exists_trace
    (fun cluster event => event.Permitted Uncompacted cluster) bootstrap.initial
    (firstElection ++ firstWrite ++ secondWrite)
    (fun _ cluster => decide (1 ≤ (cluster.process 0).node.commitIndex) &&
      decide (1 ≤ (cluster.process 2).node.commitIndex))
    (by decide +kernel)
  obtain ⟨one, two⟩ := Bool.and_eq_true_iff.mp checked
  have committed := of_decide_eq_true one
  have committed' := of_decide_eq_true two
  obtain ⟨_, _, same⟩ := (state_machine_safety bootstrap_mesh trace).1 cluster trace.mem_visited
    cluster trace.mem_visited 0 2 1 (by decide) committed committed'
  exact ⟨moves, cluster, trace, committed, committed', same⟩

section

variable {ι : Type}

/-- Node `i`, leader of the term before and after, advances its `commitIndex` to at
least `index` in this move: only `maybeCommit` does that to a leader. -/
def Commits (i : ι) (term index : Nat) (move : Move (Cluster ι) (Event ι)) : Prop :=
  (move.before.process i).node.state = .leader ∧
    (move.before.process i).node.currentTerm = term ∧
    (move.after.process i).node.state = .leader ∧
    (move.after.process i).node.currentTerm = term ∧
    (move.before.process i).node.commitIndex < (move.after.process i).node.commitIndex ∧
    index ≤ (move.after.process i).node.commitIndex

instance (i : ι) (term index : Nat) (move : Move (Cluster ι) (Event ι)) :
    Decidable (Commits i term index move) :=
  inferInstanceAs (Decidable (_ ∧ _ ∧ _ ∧ _ ∧ _ ∧ _))

variable [Fintype ι] [DecidableEq ι] {deployment : Deployment ι}

/-- Leader completeness: what a leader has committed is in the log of every node
that becomes leader in a later term, at that moment. -/
theorem leader_completeness (mesh : deployment.FullMesh)
    {moves : List (Move (Cluster ι) (Event ι))} {cluster : Cluster ι}
    (trace : deployment.system.Trace (fun cluster event => event.Permitted Uncompacted cluster)
      deployment.initial moves cluster)
    {commit election : Move (Cluster ι) (Event ι)} (one : commit ∈ moves)
    (two : election ∈ moves) {p q : ι} {term later index : Nat}
    (commits : Commits p term index commit) (elected : Elects q later election)
    (order : term < later) : ∀ k, 0 < k → k ≤ index →
      k ≤ (election.after.process q).node.log.lastIndex ∧
        (election.after.process q).node.log.get k = (commit.after.process p).node.log.get k := by
  obtain ⟨ghost, related, remembered⟩ := remembered_of_run mesh trace
  have old := remembered _ (System.mem_visited_of_move one) p
  have new := remembered _ (System.mem_visited_of_move two) q
  obtain ⟨_, _, _, reached, _, within⟩ := commits
  obtain ⟨_, leads, opened⟩ := elected
  obtain ⟨leading, standing, slated, initial⟩ := new.elected leads
  intro k positive below
  rcases old.committed with nothing | ⟨earlier, bound, past, committed, covered, held⟩
  · omega
  rw [opened] at leading slated
  have complete := related.sound.elected_complete committed (by omega) leading slated
  have bounded := committed.bounded
  have found : (ghost.reign earlier)[k - 1]? = some ((ghost.reign earlier)[k - 1]) :=
    List.getElem?_eq_getElem (by omega)
  have theirs : (election.after.process q).node.log.rest[k - 1]? =
      some ((ghost.reign earlier)[k - 1]) := by
    refine getElem?_of_initial (complete.trans initial) ?_
    rw [List.getElem?_take_of_lt (by omega)]
    exact found
  have ours : (commit.after.process p).node.log.rest[k - 1]? =
      some ((ghost.reign earlier)[k - 1]) := by
    refine getElem?_of_initial held ?_
    rw [List.getElem?_take_of_lt (by omega)]
    exact found
  have inside := (List.getElem?_eq_some_iff.mp theirs).1
  rw [new.whole, old.whole, Log.lastIndex_whole, Log.get_whole positive, Log.get_whole positive,
    theirs, ours]
  exact ⟨by omega, rfl⟩

end

/-- Node 3, which has the write, becomes leader of term 2 with the vote of node 2. -/
def successorElection : List (Event (Fin 3)) := [
  .run (.tick (500 * millisecond)),
  .run (.internal node3 .electionTimeout),
  .run (.startPreVote node3),
  .run (.serveVote 2 1 node2),
  .run (.resumePreVote 2 1),
  .run (.becomeCandidate 2),
  .run (.startElection node3),
  .run (.serveVote 3 1 node2),
  .run (.resumeVote 3 1)]

theorem leader_completeness_bootstrap :
    ∃ moves cluster commit election, bootstrap.system.Trace
        (fun cluster event => event.Permitted Uncompacted cluster) bootstrap.initial moves cluster ∧
      commit ∈ moves ∧ election ∈ moves ∧ Commits 0 1 1 commit ∧ Elects 2 2 election ∧
      (election.after.process 2).node.log.get 1 = (commit.after.process 0).node.log.get 1 := by
  obtain ⟨moves, cluster, trace, checked⟩ := bootstrap.system.exists_trace
    (fun cluster event => event.Permitted Uncompacted cluster) bootstrap.initial
    (firstElection ++ firstWrite ++ successorElection)
    (fun moves _ => (moves.any fun move => decide (Commits 0 1 1 move)) &&
      moves.any fun move => decide (Elects 2 2 move))
    (by decide +kernel)
  obtain ⟨one, two⟩ := Bool.and_eq_true_iff.mp checked
  obtain ⟨commit, member, found⟩ := List.any_eq_true.mp one
  obtain ⟨election, member', found'⟩ := List.any_eq_true.mp two
  have commits := of_decide_eq_true found
  have elects := of_decide_eq_true found'
  obtain ⟨_, same⟩ := leader_completeness bootstrap_mesh trace member member' commits elects
    (by decide) 1 (by decide) (by decide)
  exact ⟨moves, cluster, commit, election, trace, member, member', commits, elects, same⟩

section

variable {ι : Type} [Fintype ι] [DecidableEq ι] {deployment : Deployment ι}
  {ghost : Consensus.State ι LogEntry} {i : ι} {elections : Nat} {node : RaftNode}

omit [DecidableEq ι] in
theorem Replica.entry_at (replica : Replica deployment ghost i elections node) {entry : LogEntry}
    (member : entry ∈ node.log.entries) :
    (entry.index = 0 ∧ entry.term = 0) ∨
      0 < entry.index ∧ (ghost.log i)[entry.index - 1]? = some entry := by
  rw [replica.log, Log.entries] at member
  rcases List.mem_cons.mp member with rfl | inside
  · exact .inl ⟨rfl, rfl⟩
  · obtain ⟨position, found⟩ := List.mem_iff_getElem?.mp inside
    have at' := replica.indexed position entry found
    refine .inr ⟨by omega, ?_⟩
    rw [at', Nat.add_sub_cancel]
    exact found

omit [DecidableEq ι] in
theorem Replica.terms (replica : Replica deployment ghost i elections node)
    (sound : Consensus.Sound ghost) :
    (node.log.entries.map (·.term)).Pairwise (· ≤ ·) ∧
      ∀ entry ∈ node.log.entries, entry.term ≤ node.currentTerm := by
  rw [replica.log, Log.entries]
  constructor
  · rw [List.map_cons, List.pairwise_cons]
    refine ⟨fun _ _ => Nat.zero_le _, ?_⟩
    rw [List.pairwise_map, Log.rest_whole, List.pairwise_iff_getElem]
    intro low high inside inside' order
    exact sound.stamps_ordered (sound.logCoherent i) order.le
      (List.getElem?_eq_getElem inside) (List.getElem?_eq_getElem inside')
  · intro entry member
    rcases List.mem_cons.mp member with rfl | inside
    · exact Nat.zero_le _
    · rw [← replica.voting.term]
      exact sound.logStamp i entry inside

/-- Log matching: in every reachable state, logs that share an entry's index and
term agree up to it, and the terms of each log are ordered and bounded by its
node's term. -/
theorem log_matching (mesh : deployment.FullMesh)
    {moves : List (Move (Cluster ι) (Event ι))} {cluster : Cluster ι}
    (trace : deployment.system.Trace (fun cluster event => event.Permitted Uncompacted cluster)
      deployment.initial moves cluster) :
    (∀ p q, ∀ one ∈ (cluster.process p).node.log.entries,
      ∀ two ∈ (cluster.process q).node.log.entries, one.index = two.index → one.term = two.term →
        ∀ k ≤ one.index, (cluster.process p).node.log.get k = (cluster.process q).node.log.get k) ∧
    ∀ p, ((cluster.process p).node.log.entries.map (·.term)).Pairwise (· ≤ ·) ∧
      ∀ entry ∈ (cluster.process p).node.log.entries,
        entry.term ≤ (cluster.process p).node.currentTerm := by
  obtain ⟨ghost, related, _⟩ := remembered_of_run mesh trace
  have replica (p : ι) := (related.holds.process p).1
  refine ⟨?_, fun p => (replica p).terms related.sound⟩
  intro p q one first two second index term k below
  rw [(replica p).log, (replica q).log]
  rcases Nat.eq_zero_or_pos k with rfl | positive
  · simp
  rcases (replica p).entry_at first with ⟨zero, _⟩ | ⟨_, found⟩
  · omega
  rcases (replica q).entry_at second with ⟨zero, _⟩ | ⟨_, found'⟩
  · omega
  rw [← index] at found'
  have agree := (related.sound.logCoherent p).agree (related.sound.logCoherent q) found found' term
  rw [Log.get_whole positive, Log.get_whole positive]
  congr 1
  have read := congrArg (·[k - 1]?) agree
  simpa only [List.getElem?_take_of_lt (show k - 1 < one.index - 1 + 1 by omega)] using read

end

theorem log_matching_bootstrap :
    ∃ moves cluster one two, bootstrap.system.Trace
        (fun cluster event => event.Permitted Uncompacted cluster) bootstrap.initial moves cluster ∧
      (cluster.process 0).node.log.entries[2]? = some one ∧
      (cluster.process 2).node.log.entries[2]? = some two ∧
      one.index = 2 ∧ two.index = 2 ∧ one.term = two.term ∧
      (cluster.process 0).node.log.get 1 = (cluster.process 2).node.log.get 1 := by
  obtain ⟨moves, cluster, trace, checked⟩ := bootstrap.system.exists_trace
    (fun cluster event => event.Permitted Uncompacted cluster) bootstrap.initial
    (firstElection ++ firstWrite ++ secondWrite)
    (fun _ cluster =>
      ((cluster.process 0).node.log.entries[2]?.any fun (one : LogEntry) =>
        (cluster.process 2).node.log.entries[2]?.any fun (two : LogEntry) =>
          decide (one.index = 2) && decide (two.index = 2) && decide (one.term = two.term)))
    (by decide +kernel)
  obtain ⟨one, found, matching⟩ := Option.any_eq_true _ _ |>.mp checked
  obtain ⟨two, found', equal⟩ := Option.any_eq_true _ _ |>.mp matching
  simp only [Bool.and_eq_true, decide_eq_true_eq] at equal
  obtain ⟨⟨index, index'⟩, term⟩ := equal
  have same := (log_matching bootstrap_mesh trace).1 0 2 one (List.mem_of_getElem? found) two
    (List.mem_of_getElem? found') (index.trans index'.symm) term 1 (by omega)
  exact ⟨moves, cluster, one, two, trace, found, found', index, index', term, same⟩

section

variable {ι : Type} [Fintype ι] [DecidableEq ι] {deployment : Deployment ι}

omit [DecidableEq ι] in
theorem Replica.persisted {ghost : Consensus.State ι LogEntry} {i : ι} {elections : Nat}
    {node : RaftNode} (replica : Replica deployment ghost i elections node) {index : Nat}
    {entry : LogEntry} (positive : 0 < index)
    (found : (ghost.log i)[index - 1]? = some entry) :
    ∃ state, node.disk.state = some state ∧ index ≤ state.entries.lastIndex ∧
      state.entries.get index = entry := by
  have stored := replica.stored
  have inside := (List.getElem?_eq_some_iff.mp found).1
  unfold RaftNode.Stored at stored
  rw [replica.log] at stored
  split at stored
  · have empty : ghost.log i = [] := congrArg Log.rest stored
    simp [empty] at inside
  · rename_i state written
    refine ⟨state, written, ?_⟩
    rw [stored, Log.lastIndex_whole, Log.get_whole positive, found]
    exact ⟨by omega, rfl⟩

/-- Acknowledged writes are durable: from the moment a call has returned without an
error, the persisted logs of a majority contain its entry. -/
theorem acknowledged_writes_durable (mesh : deployment.FullMesh)
    {before after : List (Move (Cluster ι) (Event ι))} {middle cluster : Cluster ι}
    (first : deployment.system.Trace (fun cluster event => event.Permitted Uncompacted cluster)
      deployment.initial before middle)
    (second : deployment.system.Trace (fun cluster event => event.Permitted Uncompacted cluster)
      middle after cluster)
    {i : ι} {call : ClientCall} (member : call ∈ (middle.process i).calls) {value : String}
    (returned : call.state = .returned (.ok value)) :
    ∃ holders : Finset ι, IsMajority holders ∧ ∀ holder ∈ holders,
      ∃ state, (cluster.process holder).node.disk.state = some state ∧
        call.index ≤ state.entries.lastIndex ∧
        state.entries.get call.index = call.entry deployment.codec := by
  obtain ⟨ghost, related, noted⟩ := Contract.Kept.run
    (fun cluster (ghost : Consensus.State ι LogEntry) => ∀ i, ∀ call ∈ (cluster.process i).calls,
      ∀ value, call.state = .returned (.ok value) →
        Chosen ghost call.index (call.entry deployment.codec))
    (consensus_kept mesh) (fun _ event permitted => ⟨permitted, event.saves_any⟩)
    (plain_step fun _ _ _ permitted => permitted.1.1)
    (fun _ _ _ related i call member value returned => by
      obtain ⟨caller, found⟩ := List.mem_iff_getElem?.mp member
      exact ((related.holds.process i).2.calls caller call found).returned value returned)
    (fun _ _ _ sound ⟨_, moved⟩ noting i call member value returned =>
      sound.chosen_step moved (noting i call member value returned))
    (first.append second) plain_initial consensus_initial
  have reached : middle ∈ System.visited deployment.initial (before ++ after) := by
    rw [System.visited, List.map_append, ← List.cons_append]
    exact List.mem_append_left _ first.mem_visited
  have chosen := noted middle reached i call member value returned
  obtain ⟨holders, majority, held⟩ := related.sound.chosen_held chosen
  exact ⟨holders, majority, fun holder present =>
    (related.holds.process holder).1.persisted chosen.1 (held holder present)⟩

end

/-- The first write is applied on node 1, and its caller gets the answer. -/
def firstAnswer : List (Event (Fin 3)) := [
  .run (.internal node1 (.applyLoop .commit)),
  .run (.internal node1 (.applyLoop .commit)),
  .run (.internal node1 (.applyLoop .commit)),
  .run (.internal node1 (.applyLoop .commit)),
  .run (.internal node1 (.readApplyCh true)),
  .run (.internal node1 (.readApplyCh true)),
  .run (.internal node1 (.finishCall 0))]

/-- The call returned `nil`. -/
def KvStore.ClientCall.acknowledged (call : ClientCall) : Bool :=
  match call.state with
  | .returned (.ok _) => true
  | _ => false

theorem KvStore.ClientCall.returned_of_acknowledged {call : ClientCall}
    (nil : call.acknowledged = true) : ∃ value, call.state = .returned (.ok value) := by
  unfold acknowledged at nil
  split at nil
  · rename_i value returned
    exact ⟨value, returned⟩
  · cases nil

/-- The write is still there after the leader that acknowledged it has crashed. -/
theorem acknowledged_writes_durable_bootstrap :
    ∃ before middle after cluster call value,
      bootstrap.system.Trace (fun cluster event => event.Permitted Uncompacted cluster)
        bootstrap.initial before middle ∧
      bootstrap.system.Trace (fun cluster event => event.Permitted Uncompacted cluster)
        middle after cluster ∧
      bootstrap.step middle (.crash 0) = some cluster ∧
      call ∈ (middle.process 0).calls ∧ call.state = .returned (.ok value) ∧
      ∃ holders : Finset (Fin 3), IsMajority holders ∧ ∀ holder ∈ holders,
        ∃ state, (cluster.process holder).node.disk.state = some state ∧
          call.index ≤ state.entries.lastIndex ∧
          state.entries.get call.index = call.entry bootstrap.codec := by
  obtain ⟨before, middle, first, checked⟩ := bootstrap.system.exists_trace
    (fun cluster event => event.Permitted Uncompacted cluster) bootstrap.initial
    (firstElection ++ firstWrite ++ firstAnswer)
    (fun _ cluster => (cluster.process 0).calls.any fun call => call.acknowledged)
    (by decide +kernel)
  obtain ⟨call, member, acknowledged⟩ := List.any_eq_true.mp checked
  obtain ⟨value, returned⟩ := ClientCall.returned_of_acknowledged acknowledged
  have crashed : Event.Permitted Uncompacted middle (.crash 0) := trivial
  have second : bootstrap.system.Trace
      (fun cluster event => event.Permitted Uncompacted cluster) middle _ _ :=
    .snoc .nil crashed rfl
  exact ⟨before, middle, _, _, call, value, first, second, rfl, member, returned,
    acknowledged_writes_durable bootstrap_mesh first second member returned⟩

end RaftGo
