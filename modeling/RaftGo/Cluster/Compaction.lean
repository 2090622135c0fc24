import RaftGo.Cluster.Uncompacted
import RaftGo.KvStore.Application
import RaftGo.KvStore.Recovery
import RaftGo.Raft.Compacted

/-! What ties nodes that compact their logs to the replicated log of
`Library.Consensus`. Each node has a counterpart that never compacts and is a
`Replica` of the history; the node's log is the counterpart's with its first part
replaced by a marker. A snapshot may arrive over a log that differs from it: the
entries behind the marker then do not belong to it, and the counterpart keeps its log
until a leader replaces them. -/

namespace RaftGo

open Raft KvStore Library Library.Consensus

/-- The history of the replicated log, and up to where each node has compacted. -/
structure Archive (ι : Type) where
  history : Consensus.State ι LogEntry
  covered : ι → Nat

variable {ι : Type} [Fintype ι]

/-- What the leader of a term may take a node to hold: it has acknowledged it, or its
snapshot covers it. -/
def Archive.Reached (archive : Archive ι) (term : Nat) (j : ι) (index : Nat) : Prop :=
  index ≤ archive.history.acked term j ∨
    index ≤ archive.covered j ∧ Decided archive.history term index

inductive Archive.Step [DecidableEq ι] (archive : Archive ι) (i : ι) : Archive ι → Prop where
  | write {next : Consensus.State ι LogEntry} (moved : Consensus.Step archive.history i next) :
      Step archive i { archive with history := next }
  | cover {index : Nat} (ahead : archive.covered i ≤ index) :
      Step archive i { archive with covered := Function.update archive.covered i index }

/-- The log of a node and its log in the history. Behind the marker they are the same;
the marker is that of a chosen entry. What is committed is settled, or nothing behind
the marker is committed yet. -/
structure Compaction (archive : Archive ι) (i : ι) (node : RaftNode) : Prop where
  covered : archive.covered i = node.log.snapshotIndex
  log : node.log = (Log.whole (archive.history.log i)).compactTo node.log.snapshotIndex
    node.log.snapshotTerm
  within : node.log.snapshotIndex ≤ (archive.history.log i).length
  decided : Decided archive.history node.currentTerm node.log.snapshotIndex
  marker : 0 < node.log.snapshotIndex → ∃ entry,
    Chosen archive.history node.log.snapshotIndex entry ∧ entry.term = node.log.snapshotTerm
  bottom : node.log.snapshotIndex ≤ node.lastApplied
  applied : node.lastApplied ≤ node.commitIndex
  committed : Settled archive.history i node.commitIndex ∨
    node.commitIndex = node.log.snapshotIndex ∧
      node.log.snapshotIndex < (archive.history.log i).length

/-- Another node leads the term in which this one stands. -/
structure Outrun (history : Consensus.State ι LogEntry) (i : ι) (term : Nat) : Prop where
  led : ∃ leader, leader ≠ i ∧ history.leader term = some leader
  stood : history.ballot term i = some i

/-- The node as it would be without compaction. It may have given up a candidacy that
`HandleInstallSnapshot`, which does not look at the role, has left standing. -/
structure Counterpart (history : Consensus.State ι LogEntry) (i : ι) (whole node : RaftNode) :
    Prop where
  id : whole.id = node.id
  peers : whole.peers = node.peers
  currentTerm : whole.currentTerm = node.currentTerm
  votedFor : whole.votedFor = node.votedFor
  state : whole.state = node.state ∨
    whole.state = .follower ∧ node.state = .candidate ∧ Outrun history i node.currentTerm

section Evolution

omit [Fintype ι]

variable {history later : Consensus.State ι LogEntry} {i : ι}

theorem Outrun.evolves {term : Nat} (outrun : Outrun history i term)
    (evolves : Evolves history later) : Outrun later i term := by
  obtain ⟨⟨leader, different, leads⟩, stood⟩ := outrun
  exact ⟨⟨leader, different, evolves.leader leads⟩, evolves.ballot stood⟩

theorem Counterpart.evolves {whole node : RaftNode} (counterpart : Counterpart history i whole node)
    (evolves : Evolves history later) : Counterpart later i whole node := by
  refine { counterpart with state := ?_ }
  rcases counterpart.state with same | ⟨follows, stands, outrun⟩
  · exact .inl same
  · exact .inr ⟨follows, stands, outrun.evolves evolves⟩

end Evolution

variable (deployment : Deployment ι)

structure Condensed (archive : Archive ι) (i : ι) (elections : Nat) (node : RaftNode) : Prop where
  counterpart : ∃ whole, Replica deployment archive.history i elections whole ∧
    Counterpart archive.history i whole node
  compaction : Compaction archive i node
  progress : node.state = .leader → ∀ j, j ≠ i →
    archive.Reached node.currentTerm j (node.matchIndex.read (deployment.addr j))
  backed : node.Backed

/-- An `AppendEntries` in flight, as it was sent, and what a successful reply to it
says. -/
structure Dispatch (archive : Archive ι) (rpc : AppendRpc ι) : Prop where
  shipment : Shipment deployment archive.history (rpc.setPhase .requested)
  acked : ∀ reply, rpc.phase = .replied reply → reply.success = true →
    ∀ j, deployment.addr j = rpc.peer →
      archive.Reached rpc.term j (rpc.args.prevLogIndex + rpc.args.entries.length)

/-- An `InstallSnapshot` in flight: its marker is that of an entry chosen by the term of
its leader, and whoever has replied in that term covers it. -/
structure Transfer (archive : Archive ι) (rpc : InstallRpc ι) : Prop where
  term : rpc.args.term = rpc.term
  led : archive.history.Led rpc.term
  decided : Decided archive.history rpc.term rpc.args.lastIncludedIndex
  marker : 0 < rpc.args.lastIncludedIndex → ∃ entry,
    Chosen archive.history rpc.args.lastIncludedIndex entry ∧
      entry.term = rpc.args.lastIncludedTerm
  indexed : Indexed ((archive.history.reign rpc.term).take rpc.args.lastIncludedIndex)
  acked : ∀ reply, rpc.phase = .replied reply → reply.term ≤ rpc.term →
    ∀ j, deployment.addr j = rpc.peer → rpc.args.lastIncludedIndex ≤ archive.covered j

section Stable

variable [DecidableEq ι] {deployment} {archive next : Archive ι} {i : ι}

theorem Archive.Step.sound (moved : archive.Step i next) (sound : Consensus.Sound archive.history) :
    Consensus.Sound next.history := by
  cases moved with
  | write moved => exact sound.step moved
  | cover ahead => exact sound

theorem Archive.Step.covered (moved : archive.Step i next) (j : ι) :
    archive.covered j ≤ next.covered j := by
  cases moved with
  | write moved => exact Nat.le_refl _
  | cover ahead =>
    by_cases same : j = i
    · subst same
      simpa using ahead
    · simp [Function.update_of_ne same]

theorem Archive.Step.decided (moved : archive.Step i next) (sound : Consensus.Sound archive.history)
    {term index : Nat} (decided : Decided archive.history term index) :
    Decided next.history term index := by
  cases moved with
  | write moved => exact sound.decided_step moved decided
  | cover ahead => exact decided

theorem Archive.Step.chosen (moved : archive.Step i next) (sound : Consensus.Sound archive.history)
    {index : Nat} {entry : LogEntry} (chosen : Chosen archive.history index entry) :
    Chosen next.history index entry := by
  cases moved with
  | write moved => exact sound.chosen_step moved chosen
  | cover ahead => exact chosen

theorem Archive.Step.evolves (moved : archive.Step i next) :
    Evolves archive.history next.history := by
  cases moved with
  | write moved => exact moved.evolves
  | cover ahead => exact .refl _

theorem Archive.Reached.moves {term index : Nat} {j : ι} (reached : archive.Reached term j index)
    (sound : Consensus.Sound archive.history) (moved : archive.Step i next) :
    next.Reached term j index := by
  rcases reached with acked | ⟨covered, decided⟩
  · exact .inl (acked.trans (moved.evolves.acked term j))
  · exact .inr ⟨covered.trans (moved.covered j), moved.decided sound decided⟩

theorem Compaction.spared {j : ι} {node : RaftNode} (compaction : Compaction archive j node)
    (sound : Consensus.Sound archive.history) (moved : archive.Step i next) (other : j ≠ i) :
    Compaction next j node := by
  have decided := moved.decided sound compaction.decided
  have marker (positive : 0 < node.log.snapshotIndex) : ∃ entry,
      Chosen next.history node.log.snapshotIndex entry ∧ entry.term = node.log.snapshotTerm := by
    obtain ⟨entry, chosen, stamped⟩ := compaction.marker positive
    exact ⟨entry, moved.chosen sound chosen, stamped⟩
  cases moved with
  | write moved =>
    have same := (moved.spares other).log
    refine { compaction with
      log := ?_, within := ?_, decided := decided, marker := marker, committed := ?_ }
    · rw [same]
      exact compaction.log
    · rw [same]
      exact compaction.within
    · rw [same]
      exact compaction.committed.imp_left (sound.settled_step moved)
  | cover ahead =>
    exact { compaction with
      covered := (Function.update_of_ne other _ _).trans compaction.covered }

theorem Condensed.spared {j : ι} {elections : Nat} {node : RaftNode}
    (condensed : Condensed deployment archive j elections node)
    (sound : Consensus.Sound archive.history) (moved : archive.Step i next) (other : j ≠ i) :
    Condensed deployment next j elections node where
  counterpart := by
    obtain ⟨whole, replica, counterpart⟩ := condensed.counterpart
    refine ⟨whole, ?_, counterpart.evolves moved.evolves⟩
    cases moved with
    | write moved => exact replica.spared sound moved (moved.spares other)
    | cover ahead => exact replica
  compaction := condensed.compaction.spared sound moved other
  progress leads peer different := (condensed.progress leads peer different).moves sound moved
  backed := condensed.backed

theorem Dispatch.moves {rpc : AppendRpc ι} (dispatch : Dispatch deployment archive rpc)
    (sound : Consensus.Sound archive.history) (moved : archive.Step i next) :
    Dispatch deployment next rpc where
  shipment := by
    cases moved with
    | write moved => exact dispatch.shipment.moves sound moved
    | cover ahead => exact dispatch.shipment
  acked reply replied success j routed :=
    (dispatch.acked reply replied success j routed).moves sound moved

theorem Transfer.moves {rpc : InstallRpc ι} (transfer : Transfer deployment archive rpc)
    (sound : Consensus.Sound archive.history) (moved : archive.Step i next) :
    Transfer deployment next rpc where
  term := transfer.term
  led := moved.evolves.led transfer.led
  decided := moved.decided sound transfer.decided
  marker positive := by
    obtain ⟨entry, chosen, stamped⟩ := transfer.marker positive
    exact ⟨entry, moved.chosen sound chosen, stamped⟩
  indexed := by
    have inside := (sound.decided_reign transfer.decided (Nat.le_refl _) transfer.led).1
    cases moved with
    | write moved =>
      rw [sound.take_step moved inside]
      exact transfer.indexed
    | cover ahead => exact transfer.indexed
  acked reply replied current j routed :=
    (transfer.acked reply replied current j routed).trans (moved.covered j)

end Stable

variable [DecidableEq ι]

def condensedContract : Contract ι (Archive ι) where
  shape archive := {
    process := fun i process => Condensed deployment archive i process.elections process.node
    poll := fun poll => poll.args.isPreVote = false → Canvass deployment archive.history poll
    append := fun rpc => Dispatch deployment archive rpc
    install := fun rpc => Transfer deployment archive rpc }
  moves := Archive.Step
  sound archive := Consensus.Sound archive.history
  sound_moves sound moved := moved.sound sound
  process_moves sound moved other condensed := condensed.spared sound moved other
  poll_moves sound moved canvass real := by
    cases moved with
    | write moved => exact (canvass real).moves moved
    | cover ahead => exact canvass real
  append_moves sound moved dispatch := dispatch.moves sound moved
  install_moves sound moved transfer := transfer.moves sound moved

end RaftGo
