import RaftGo.Cluster.Condensed
import RaftGo.Cluster.ElectionSafety

/-! What a leader takes its peers to hold. As long as a snapshot that is to be installed
can be saved, `matchIndex` never runs ahead of the log of a peer; the reply to
`InstallSnapshot` does not tell a leader whether it was. -/

namespace RaftGo

open Raft KvStore Library Library.Consensus

/-- A log, its snapshot counted as the part it has compacted, agrees with a list of
entries up to an index: it reaches that index, behind its marker it holds those entries,
and the marker carries the term of the entry it stands for. -/
structure Raft.Log.Agrees (log : Log) (entries : List LogEntry) (index : Nat) : Prop where
  reach : index ≤ log.lastIndex
  behind : ∀ position, log.snapshotIndex < position → position ≤ index →
    entries[position - 1]? = some (log.get position)
  marker : 0 < log.snapshotIndex → ∃ entry,
    entries[log.snapshotIndex - 1]? = some entry ∧ entry.term = log.snapshotTerm

section

variable {ι : Type} [Fintype ι] [DecidableEq ι] {deployment : Deployment ι} {archive : Archive ι}
  {i j : ι} {elections : Nat} {node : RaftNode}

omit [DecidableEq ι] in
theorem Compaction.get (compaction : Compaction archive i node) {position : Nat}
    (behind : node.log.snapshotIndex < position)
    (within : position ≤ (archive.history.log i).length) :
    (archive.history.log i)[position - 1]? = some (node.log.get position) := by
  have inside : position - 1 < (archive.history.log i).length := by omega
  have found := List.getElem?_eq_getElem inside
  have read := Log.get_whole_of_found found
  rw [Nat.sub_add_cancel (Nat.zero_lt_of_lt behind)] at read
  rw [compaction.log, Log.get_compactTo _ (Nat.zero_lt_of_lt behind) behind, read]
  exact found

namespace Condensed

/-- The marker of a node stands for an entry of the reign of any later term. -/
theorem marker_reign (condensed : Condensed deployment archive i elections node)
    (sound : Consensus.Sound archive.history) {term : Nat} (order : node.currentTerm ≤ term)
    (led : archive.history.Led term) (positive : 0 < node.log.snapshotIndex) : ∃ entry,
      (archive.history.reign term)[node.log.snapshotIndex - 1]? = some entry ∧
        entry.term = node.log.snapshotTerm := by
  obtain ⟨entry, chosen, stamped⟩ := condensed.compaction.marker positive
  exact ⟨entry, sound.chosen_reign condensed.compaction.decided chosen order led, stamped⟩

theorem leader_agrees (condensed : Condensed deployment archive i elections node)
    (sound : Consensus.Sound archive.history) (leads : node.state = .leader) :
    node.log.Agrees (archive.history.reign node.currentTerm) node.log.lastIndex := by
  obtain ⟨led, reign⟩ := condensed.reigns sound leads
  refine ⟨Nat.le_refl _, ?_, condensed.marker_reign sound (Nat.le_refl _) led⟩
  intro position behind within
  rw [← reign]
  exact condensed.compaction.get behind (condensed.compaction.lastIndex ▸ within)

/-- What the leader of its term takes a node to have reached, the node holds. -/
theorem reached_agrees (condensed : Condensed deployment archive j elections node)
    (sound : Consensus.Sound archive.history) (led : archive.history.Led node.currentTerm)
    {index : Nat} (reached : archive.Reached node.currentTerm j index) :
    node.log.Agrees (archive.history.reign node.currentTerm) index := by
  have compaction := condensed.compaction
  have marker := condensed.marker_reign sound (Nat.le_refl _) led
  rw [← condensed.term] at reached marker ⊢
  rcases reached with acked | ⟨covered, _⟩
  · have held := sound.acked_held acked
    have size : ((archive.history.reign (archive.history.term j)).take index).length = index := by
      rw [List.length_take, Nat.min_eq_left (acked.trans (sound.ackedBound _ _))]
    have reach : index ≤ (archive.history.log j).length := size ▸ held.length_le
    refine ⟨compaction.lastIndex ▸ reach, ?_, marker⟩
    intro position behind within
    have own := compaction.get behind (within.trans reach)
    have here : position - 1 < index := by omega
    have inside : position - 1 < (archive.history.reign (archive.history.term j)).length :=
      here.trans_le (acked.trans (sound.ackedBound _ _))
    have found := List.getElem?_eq_getElem inside
    rw [found, ← own]
    refine (getElem?_of_initial held ?_).symm
    rw [List.getElem?_take_of_lt here]
    exact found
  · have short : index ≤ node.log.snapshotIndex := compaction.covered ▸ covered
    refine ⟨?_, fun position behind within => absurd behind (Nat.not_lt.mpr (within.trans short)),
      marker⟩
    exact short.trans (compaction.lastIndex ▸ compaction.within)

end Condensed

/-- In every run in which each snapshot that arrives can be saved, the log of a leader and
those of its peers in the same term agree with one list of entries: the leader's up to its
end, a peer's up to its `matchIndex`. -/
theorem match_index_backed (mesh : deployment.FullMesh)
    {moves : List (Move (Cluster ι) (Event ι))} {cluster : Cluster ι}
    (trace : deployment.system.Trace
      (fun cluster event => event.Permitted LeadersHearQuorum cluster ∧ event.Saves (· = true))
      deployment.initial moves cluster)
    (leads : (cluster.process i).node.state = .leader) :
    ∃ entries, entries.length = (cluster.process i).node.log.lastIndex ∧
      (cluster.process i).node.log.Agrees entries (cluster.process i).node.log.lastIndex ∧
      ∀ j, j ≠ i →
        (cluster.process j).node.currentTerm = (cluster.process i).node.currentTerm →
        (cluster.process j).node.log.Agrees entries
          ((cluster.process i).node.matchIndex.read (deployment.addr j)) := by
  obtain ⟨archive, related, _⟩ := Contract.Kept.run (fun _ _ => True) (condensed_kept mesh)
    (fun _ _ allowed => allowed) (plain_step fun _ _ _ permitted => permitted.1)
    (fun _ _ _ _ => trivial) (fun _ _ _ _ _ noted => noted) trace plain_initial condensed_initial
  have sound := related.sound
  have leader := related.holds.process i
  obtain ⟨led, reign⟩ := Condensed.reigns leader sound leads
  refine ⟨archive.history.reign (cluster.process i).node.currentTerm, ?_,
    Condensed.leader_agrees leader sound leads, ?_⟩
  · rw [← reign]
    exact leader.compaction.lastIndex.symm
  · intro j other same
    have reached := leader.progress leads j other
    rw [← same] at led reached ⊢
    exact Condensed.reached_agrees (related.holds.process j) sound led reached

end

/-- The bootstrap nodes, with a snapshot after every entry. -/
noncomputable def eager : Deployment (Fin 3) := { bootstrap with snapshotThreshold := 1 }

theorem eager_mesh : eager.FullMesh := { bootstrap_mesh with }

/-- Node 1 commits an entry with node 2, applies it and compacts its log. -/
def committedAndCompacted : List (Event (Fin 3)) := firstElection ++ [
  .run (.internal node1 (.call setOp)),
  .run (.serveAppend 0 node2),
  .run (.resumeAppend 0)] ++
  List.replicate 4 (.run (.internal node1 (.applyLoop .commit))) ++
  List.replicate 4 (.run (.internal node1 (.readApplyCh true)))

/-- Node 1 sends its snapshot to node 3, which has heard nothing yet, and takes note of
the reply. -/
def snapshotSent (saved : Bool) : List (Event (Fin 3)) := [
  .run (.internal node1 .heartbeat),
  .run (.serveInstall 0 node3 saved),
  .run (.resumeInstall 0)]

/-- The snapshot could be saved: node 3 reaches the index the leader has noted. -/
theorem match_index_backed_eager :
    ∃ moves cluster, eager.system.Trace
        (fun cluster event => event.Permitted LeadersHearQuorum cluster ∧ event.Saves (· = true))
        eager.initial moves cluster ∧
      (cluster.process 0).node.state = .leader ∧
      (cluster.process 0).node.matchIndex.read (eager.addr 2) = 1 ∧
      ∃ entries, (cluster.process 2).node.log.Agrees entries
        ((cluster.process 0).node.matchIndex.read (eager.addr 2)) := by
  obtain ⟨moves, cluster, trace, checked⟩ := eager.system.exists_trace
    (fun cluster event => event.Permitted LeadersHearQuorum cluster ∧ event.Saves (· = true))
    eager.initial (committedAndCompacted ++ snapshotSent true)
    (fun _ cluster => decide ((cluster.process 0).node.state = .leader ∧
      (cluster.process 0).node.matchIndex.read (eager.addr 2) = 1 ∧
      (cluster.process 2).node.currentTerm = (cluster.process 0).node.currentTerm))
    (by decide +kernel)
  obtain ⟨leads, noted, same⟩ := of_decide_eq_true checked
  obtain ⟨entries, _, _, agrees⟩ := match_index_backed eager_mesh trace leads
  exact ⟨moves, cluster, trace, leads, noted, entries, agrees 2 (by decide) same⟩

/-- The snapshot could not be saved: the leader notes index 1 all the same, while the log
of node 3 is empty. -/
theorem match_index_overstated :
    ∃ moves cluster, eager.system.Trace
        (fun cluster event => event.Permitted LeadersHearQuorum cluster)
        eager.initial moves cluster ∧
      (cluster.process 0).node.state = .leader ∧
      (cluster.process 2).node.currentTerm = (cluster.process 0).node.currentTerm ∧
      (cluster.process 0).node.matchIndex.read (eager.addr 2) = 1 ∧
      (cluster.process 2).node.log.lastIndex = 0 := by
  obtain ⟨moves, cluster, trace, checked⟩ := eager.system.exists_trace
    (fun cluster event => event.Permitted LeadersHearQuorum cluster) eager.initial
    (committedAndCompacted ++ snapshotSent false)
    (fun _ cluster => decide ((cluster.process 0).node.state = .leader ∧
      (cluster.process 2).node.currentTerm = (cluster.process 0).node.currentTerm ∧
      (cluster.process 0).node.matchIndex.read (eager.addr 2) = 1 ∧
      (cluster.process 2).node.log.lastIndex = 0))
    (by decide +kernel)
  exact ⟨moves, cluster, trace, of_decide_eq_true checked⟩

end RaftGo
