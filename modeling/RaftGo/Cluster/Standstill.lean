import RaftGo.Cluster.CompactedSafety
import RaftGo.Raft.Standstill

/-! A majority that commits nothing. A node that has installed a snapshot over entries which
do not belong to it, and a node that has to lead because its log is more up to date, may be
all that is left of a cluster. Whatever the two do then, the first refuses what the second
sends, so that no entry is committed, and no crash or election changes that. -/

namespace RaftGo

open Raft KvStore Library Library.Consensus

/-- Two nodes that are left: the one with the more recent log, and the one that has
installed the snapshot. -/
inductive Survivor where
  | longer
  | misled
deriving DecidableEq

section Contract

variable (deployment : Deployment Survivor) (other : Log)

/-- A poll of the misled node: nobody votes for it. -/
structure Hopeless (poll : Poll Survivor) : Prop where
  told : poll.args.lastLogTerm = other.lastTerm
  ungranted : ∀ peer phase, (peer, phase) ∈ poll.calls → phase.granted = false

/-- An `AppendEntries` the misled node refuses, or one to a node that is gone. -/
structure Futile (rpc : AppendRpc Survivor) : Prop where
  caller : rpc.caller = .longer
  routed : rpc.peer ∈ (deployment.config .longer).peers
  term : rpc.args.term = rpc.term
  refused : rpc.peer = deployment.addr .misled → ∀ follower : RaftNode, follower.log = other →
    ∃ conflictTerm conflictIndex,
      follower.prevConflict rpc.args = some (conflictTerm, conflictIndex) ∧
      other.Hints conflictTerm conflictIndex
  answered : ∀ reply, rpc.phase = .replied reply → reply.success = false ∧
    (reply.term ≤ rpc.term → other.Hints reply.conflictTerm reply.conflictIndex)

/-- An `InstallSnapshot` to a node that is gone. -/
structure Undelivered (rpc : InstallRpc Survivor) : Prop where
  nothing : rpc.args.lastIncludedIndex = 0
  gone : ∀ i, deployment.addr i ≠ rpc.peer
  waits : rpc.phase = .requested

def standstillShape : Shape Survivor where
  process
    | .longer, process => process.node.Backed ∧
        process.node.Stray other (deployment.addr .misled)
    | .misled, process => process.node.Backed ∧ process.node.Stuck other
  poll poll := poll.caller = .misled → Hopeless other poll
  append := Futile deployment other
  install := Undelivered deployment

/-- The longer log is to be replicated to the misled node; no node is its own peer. -/
structure Deployment.Pairs : Prop where
  known : deployment.addr .misled ∈ (deployment.config .longer).peers
  apart : ∀ i, deployment.addr i ∉ (deployment.config i).peers

end Contract

variable {deployment : Deployment Survivor} {other : Log}

namespace Hopeless

variable {poll : Poll Survivor} {call : Nat} {peer : String}

theorem start (process : Process) {args : RequestVoteArgs}
    (told : args.lastLogTerm = other.lastTerm) :
    Hopeless other (Poll.start .misled process args) := by
  refine ⟨told, ?_⟩
  intro peer phase member
  obtain ⟨_, _, same⟩ := List.mem_map.mp member
  cases same
  rfl

theorem setPhase {old new : Phase RequestVoteReply} (hopeless : Hopeless other poll)
    (calling : poll.calls[call]? = some (peer, old)) (own : new.granted = false) :
    Hopeless other (poll.setPhase call new) := by
  refine ⟨hopeless.told, ?_⟩
  intro target phase member
  rw [Poll.calls_setPhase calling] at member
  rcases List.mem_or_eq_of_mem_set member with kept | same
  · exact hopeless.ungranted target phase kept
  · cases same
    exact own

theorem refused {reply : RequestVoteReply} (hopeless : Hopeless other poll)
    (calling : poll.calls[call]? = some (peer, .replied reply)) : reply.voteGranted = false :=
  hopeless.ungranted peer _ (List.mem_of_getElem? calling)

theorem resume {reply : RequestVoteReply} (hopeless : Hopeless other poll)
    (calling : poll.calls[call]? = some (peer, .replied reply)) (counted : Bool) :
    Hopeless other ((poll.setPhase call (.resumed reply)).count counted) := by
  have ungranted : (Phase.resumed reply).granted = false := hopeless.refused calling
  exact { hopeless.setPhase calling ungranted with }

end Hopeless

theorem Raft.RaftNode.Stray.sends {node : RaftNode} (pairs : deployment.Pairs)
    (peers : node.peers = (deployment.config .longer).peers)
    (stray : node.Stray other (deployment.addr .misled))
    (astray : node.Astray other (deployment.addr .misled)) (boot : Nat) :
    ∀ out ∈ node.replicate, (standstillShape deployment other).Sends .longer boot out := by
  obtain ⟨positive, refused⟩ := stray.refused astray
  intro out member
  obtain ⟨peer, listed, rfl⟩ := List.mem_map.mp member
  rw [peers] at listed
  unfold RaftNode.replicateTo
  split
  · rename_i covered
    refine ⟨stray.whole, ?_, rfl⟩
    rintro (_ | _) rfl
    · exact pairs.apart .longer listed
    · rw [stray.whole] at covered
      omega
  · refine ⟨rfl, listed, rfl, ?_, by simp⟩
    rintro rfl
    exact refused

section Keeping

variable {process after : Process} {now : Nat} {input : Input} {cfg : Config}

theorem Raft.RaftNode.Stray.internal {peer : String} (stray : process.node.Stray other peer)
    {codec : Codec} (plain : process.node.Plain cfg) (internal : input.isInternal = true)
    (fixed : input.keepsMembership = true) (stepped : process.step codec now input = some after) :
    after.node.Stray other peer ∧
      (process.node.Astray other peer → after.node.Astray other peer) := by
  have applied := applied_step (by rw [stray.applied]; exact Nat.zero_le _) stepped
  have effect := (Process.node_effect plain internal fixed stepped).1
  generalize after.node = node at effect applied ⊢
  cases effect with
  | idle idles silent =>
    obtain ⟨_, _, _, _, rfl⟩ := idles
    have none := Nat.le_trans (applied (Nat.le_refl _)) (Nat.le_of_eq stray.uncommitted)
    exact ⟨{ stray with applied := Nat.le_zero.mp none }, fun astray => astray⟩
  | heartbeat =>
    have defers := RaftNode.Defers.heartbeatTick process.node now
    exact ⟨stray.defers defers, defers.astray⟩
  | submit op => exact stray.submit _
  | takeSnapshot data saved holding =>
    rw [stray.takeSnapshot_eq]
    exact ⟨stray, fun astray => astray⟩

theorem Raft.RaftNode.Stuck.internal (stuck : process.node.Stuck other) {codec : Codec}
    (plain : process.node.Plain cfg) (internal : input.isInternal = true)
    (fixed : input.keepsMembership = true) (stepped : process.step codec now input = some after) :
    after.node.Stuck other := by
  have applied := applied_step stuck.applied stepped
  have effect := (Process.node_effect plain internal fixed stepped).1
  generalize after.node = node at effect applied ⊢
  cases effect with
  | idle idles silent =>
    obtain ⟨_, _, _, _, rfl⟩ := idles
    exact { stuck with applied := applied (Nat.le_refl _) }
  | heartbeat => exact stuck.defers (.heartbeatTick process.node now)
  | submit op =>
    rw [RaftNode.submit, if_pos stuck.follows]
    exact stuck
  | takeSnapshot data saved holding =>
    rw [stuck.takeSnapshot_eq]
    exact stuck

end Keeping

section Logs

variable {ι : Type} [Fintype ι] {deployment : Deployment ι} {archive : Archive ι} {i j : ι}
  {elections : Nat} {node : RaftNode}

namespace Condensed

theorem written (condensed : Condensed deployment archive i elections node)
    (sound : Consensus.Sound archive.history) : Written (archive.history.log i) := by
  obtain ⟨whole, replica, _⟩ := condensed.counterpart
  have coherent := sound.logCoherent i
  refine ⟨?_, ?_, List.pairwise_iff_getElem.mpr ?_⟩
  · intro position entry found
    rw [replica.indexed position entry found, Nat.add_comm]
  · intro entry member
    obtain ⟨position, found⟩ := List.getElem?_of_mem member
    exact sound.positive (coherent position entry found).1
  · intro low high inside inside' order
    exact sound.stamps_ordered coherent (Nat.le_of_lt order) (List.getElem?_eq_getElem inside)
      (List.getElem?_eq_getElem inside')

theorem overlays (condensed : Condensed deployment archive i elections node) :
    node.log.Overlays (archive.history.log i) :=
  ⟨condensed.compaction.within, condensed.compaction.log⟩

end Condensed

theorem common_logs {history : Consensus.State ι LogEntry} (sound : Consensus.Sound history)
    (i j : ι) : Common (history.log i) (history.log j) := by
  refine ⟨history.reign, ?_⟩
  intro entries member position entry found
  rcases List.mem_pair.mp member with rfl | rfl
  · exact (sound.logCoherent i position entry found).2
  · exact (sound.logCoherent j position entry found).2

end Logs

/-- The misled node has an entry behind its snapshot which does not belong to it, and the
node that could replace it has entries of that term, but only before the snapshot. -/
structure Jammed (longer misled : RaftNode) : Prop where
  follows : longer.state ≠ .leader ∧ misled.state ≠ .leader
  uncommitted : longer.commitIndex = 0
  covered : misled.commitIndex ≤ misled.log.snapshotIndex
  marker : (longer.log.get misled.log.snapshotIndex).term = misled.log.snapshotTerm
  jams : longer.log.Jams misled.log
  newer : misled.log.lastTerm < longer.log.lastTerm

namespace Jammed

variable {ι : Type} [Fintype ι] {deployment : Deployment ι} {archive : Archive ι} {i j : ι}
  {elections elections' : Nat} {longer misled : RaftNode}

theorem whole (jammed : Jammed longer misled)
    (condensed : Condensed deployment archive i elections longer) :
    longer.log.snapshotIndex = 0 ∧ longer.log = .whole (archive.history.log i) := by
  have bottom := condensed.compaction.bottom
  have applied := condensed.compaction.applied
  have none : longer.log.snapshotIndex = 0 := by
    rw [jammed.uncommitted] at applied
    omega
  refine ⟨none, ?_⟩
  rw [condensed.compaction.log, none, Log.compactTo_zero]

theorem meets (jammed : Jammed longer misled) (sound : Consensus.Sound archive.history)
    (condensed : Condensed deployment archive i elections longer)
    (condensed' : Condensed deployment archive j elections' misled) :
    Log.Meets (archive.history.log i) (archive.history.log j) longer.log misled.log := by
  obtain ⟨none, whole⟩ := jammed.whole condensed
  refine ⟨condensed.written sound, condensed'.written sound, common_logs sound i j,
    condensed.overlays.compacts ?_, condensed'.overlays, ?_, ?_⟩
  · rw [whole]
    rfl
  · rw [← condensed.overlays.lastIndex]
    exact Nat.le_of_lt jammed.jams.longer
  · rw [← whole]
    exact jammed.marker

/-- The terms of the misled node lie before that of the other one. -/
theorem later (jammed : Jammed longer misled) (sound : Consensus.Sound archive.history)
    (condensed : Condensed deployment archive i elections longer)
    (condensed' : Condensed deployment archive j elections' misled) {index : Nat}
    (behind : misled.log.snapshotIndex < index) (inside : index ≤ misled.log.lastIndex) :
    (misled.log.get index).term < longer.currentTerm := by
  have target := condensed'.overlays
  have source := condensed.overlays
  have last : (misled.log.get index).term ≤ misled.log.lastTerm := by
    rw [Log.lastTerm_eq_get jammed.jams.behind, target.get behind, target.get jammed.jams.behind]
    exact (condensed'.written sound).get_le inside (Nat.le_of_eq target.lastIndex)
  have reached : longer.log.lastTerm ≤ longer.currentTerm := by
    obtain ⟨none, whole⟩ := jammed.whole condensed
    have positive : 0 < longer.log.lastIndex := Nat.zero_lt_of_lt jammed.jams.longer
    obtain ⟨counterpart, replica, same⟩ := condensed.counterpart
    rw [Log.lastTerm_eq_get (none ▸ positive), source.lastIndex, ← same.currentTerm,
      ← replica.voting.term, whole]
    rw [source.lastIndex] at positive
    have held := (condensed.written sound).found positive (Nat.le_refl _)
    exact sound.logStamp i _ (List.mem_of_getElem? held.1)
  exact Nat.lt_of_le_of_lt last (Nat.lt_of_lt_of_le jammed.newer reached)

theorem stray (jammed : Jammed longer misled) (sound : Consensus.Sound archive.history)
    (condensed : Condensed deployment archive i elections longer)
    (condensed' : Condensed deployment archive j elections' misled) (peer : String) :
    longer.Stray misled.log peer where
  misleads := (jammed.meets sound condensed condensed').misleads jammed.jams
  whole := (jammed.whole condensed).1
  applied := Nat.le_zero.mp (jammed.uncommitted ▸ condensed.compaction.applied)
  uncommitted := jammed.uncommitted
  longer := jammed.jams.longer
  newer := jammed.newer
  later _ := jammed.later sound condensed condensed'
  astray leads := absurd leads jammed.follows.1

end Jammed

end RaftGo
