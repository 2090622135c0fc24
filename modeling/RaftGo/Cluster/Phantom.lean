import RaftGo.Cluster.ElectionSafety
import RaftGo.Cluster.Inputs
import RaftGo.Cluster.Members
import RaftGo.KvStore.Lives

/-! Where the peers of a node come from. A leader takes an added peer into its list before
the entry is committed; if another leader truncates the entry, the list stays. -/

namespace RaftGo

open Raft KvStore Library

namespace Raft

/-- The entry adds the address to the peers. -/
def LogEntry.Adds (entry : LogEntry) (addr : String) : Prop :=
  entry.isConfig = true ∧ entry.configOp = .add ∧ entry.configPeer = addr

instance decidableAdds (entry : LogEntry) (addr : String) : Decidable (entry.Adds addr) :=
  inferInstanceAs (Decidable (_ ∧ _))

theorem LogEntry.added_of_mem {entry : LogEntry} {self addr : String} {peers : List String}
    (member : addr ∈ entry.reconfigure self peers) :
    addr ∈ peers ∨ (entry.configOp = .add ∧ entry.configPeer = addr) := by
  unfold LogEntry.reconfigure at member
  cases op : entry.configOp with
  | unset => exact .inl (by simpa [op] using member)
  | add =>
    simp only [op] at member
    split at member
    · exact .inl member
    · rcases List.mem_append.mp member with old | new
      · exact .inl old
      · exact .inr ⟨rfl, (List.mem_singleton.mp new).symm⟩
  | remove =>
    simp only [op] at member
    split at member
    · cases member
    · exact .inl (List.mem_filter.mp member).1

/-- Merging drops nothing but what it truncates. -/
theorem Log.mem_mergeEntries (log : Log) {entries : List LogEntry} {entry : LogEntry}
    (member : entry ∈ log.rest) : entry ∈ (log.mergeEntries entries).rest ∨
      ∃ cut, log.truncation entries = some cut ∧
        entry ∈ log.rest.drop (cut - log.snapshotIndex - 1) := by
  induction entries with
  | nil => exact .inl member
  | cons first rest ih =>
    unfold Log.mergeEntries Log.truncation
    split
    · exact ih
    · rename_i above
      dsimp only
      split
      · exact .inl (List.mem_append_left _ member)
      · split
        · have above := Nat.lt_of_not_le above
          rw [← List.take_append_drop (first.index - log.snapshotIndex - 1) log.rest] at member
          rcases List.mem_append.mp member with kept | dropped
          · refine .inl (List.mem_append_left _ ?_)
            rwa [log.truncateFrom_rest above]
          · exact .inr ⟨first.index, rfl, dropped⟩
        · exact ih

namespace RaftNode

variable {node middle after : RaftNode} {now : Nat} {part : Part}

/-- Every peer was configured, or the log has an entry that adds it. The log has never been
compacted. -/
structure Accounted (configured : List String) (node : RaftNode) : Prop where
  uncompacted : node.log.snapshotIndex = 0
  peers : ∀ addr ∈ node.peers, addr ∈ configured ∨ ∃ entry ∈ node.log.rest, entry.Adds addr

/-- The log is longer, at most. -/
def Grows (node after : RaftNode) : Prop := ∃ more, after.log = node.log.append more

theorem Grows.same (log : after.log = node.log) : Grows node after :=
  ⟨[], by rw [log, Log.append, List.append_nil]⟩

theorem Grows.trans (first : Grows node middle) (second : Grows middle after) :
    Grows node after := by
  obtain ⟨more, extended⟩ := first
  obtain ⟨further, log⟩ := second
  refine ⟨more ++ further, ?_⟩
  rw [log, extended, Log.append, Log.append, Log.append, List.append_assoc]

theorem Change.grows (change : Change now node part after)
    (other : part ∉ [.merge, .compaction, .installation]) : Grows node after := by
  by_cases appends : part = .append
  · subst appends
    cases change with
    | append entry => exact ⟨[entry], rfl⟩
  · exact .same (change.log_eq (by simpa [appends] using other))

end RaftNode

end Raft

namespace KvStore

/-- No snapshot is taken or installed, and no request truncates an entry that adds a peer the
node has in its list. -/
def Retaining (process : Process) : Input → Prop
  | .appendEntries args => ∀ cut ∈ process.node.truncationIndex args,
      ∀ entry ∈ process.node.log.rest.drop (cut - process.node.log.snapshotIndex - 1),
        ∀ addr ∈ process.node.peers, ¬entry.Adds addr
  | .installSnapshot _ _ => False
  | .readApplyCh _ => process.reader.takesSnapshot = false
  | _ => True

instance decidableRetaining (process : Process) (input : Input) :
    Decidable (Retaining process input) := by
  induction input using Input.casesOn with
  | appendEntries args =>
    exact inferInstanceAs (Decidable (∀ cut ∈ process.node.truncationIndex args,
      ∀ entry ∈ process.node.log.rest.drop (cut - process.node.log.snapshotIndex - 1),
        ∀ addr ∈ process.node.peers, ¬entry.Adds addr))
  | installSnapshot args saved => exact isFalse id
  | readApplyCh saved =>
    exact inferInstanceAs (Decidable (process.reader.takesSnapshot = false))
  | _ => exact isTrue trivial

namespace Process

variable {codec : Codec} {now : Nat} {process after : Process} {input : Input}

/-- Only `HandleAppendEntries` and snapshots take entries from a log. -/
theorem grows_step (retaining : Retaining process input)
    (other : ∀ args, input ≠ .appendEntries args)
    (stepped : process.step codec now input = some after) : process.node.Grows after.node := by
  have grows (elsewhere : ∀ branch, input ≠ .applyLoop branch)
      (others : ∀ part ∈ input.parts, part ∉ [.merge, .compaction, .installation]) :
      process.node.Grows after.node :=
    (changes_step elsewhere stepped).keeps (fun _ => .same rfl) .trans
      fun member change => change.grows (others _ member)
  cases input with
  | appendEntries args => exact absurd rfl (other args)
  | installSnapshot args saved => exact absurd retaining id
  | applyLoop branch =>
    cases applyLoop_cases stepped with
    | configure locked behind config =>
      obtain ⟨state, leaderID, nextIndex, matchIndex, lastHeardFrom, _, applied⟩ :=
        RaftNode.applyConfigEntry_eq
          { process.node with lastApplied := process.node.lastApplied + 1 } now
          (process.node.log.get (process.node.lastApplied + 1))
      rw [applied]
      exact .same rfl
    | _ => exact .same rfl
  | readApplyCh saved =>
    cases readApplyCh_cases stepped with
    | take data holding => simp [Retaining, holding, Reader.takesSnapshot] at retaining
    | routeEntry index term command result reader holding next =>
      obtain ⟨pending, calls, routed⟩ := routeEntry_eq
        { process with applied := process.applied + 1 } index term result
      rw [routed]
      exact .same rfl
    | _ => exact .same rfl
  | _ => exact grows (by simp) (by simp [Input.parts])

theorem change?_mem (uncompacted : process.node.log.snapshotIndex = 0)
    (retaining : Retaining process input) {entry : LogEntry}
    (change : process.change? input = some entry)
    (stepped : process.step codec now input = some after) :
    entry.isConfig = true ∧ entry ∈ after.node.log.rest := by
  cases input with
  | applyLoop branch =>
    obtain ⟨taken, config⟩ := Option.filter_eq_some_iff.mp change
    obtain ⟨more, log⟩ := grows_step retaining (by simp) stepped
    have read := eq_get_of_taken? taken
    rcases process.node.log.get_mem_rest (show process.node.log.snapshotIndex <
      process.node.lastApplied + 1 by omega) with held | empty
    · refine ⟨config, ?_⟩
      rw [log, read]
      exact List.mem_append_left _ held
    · rw [read, empty] at config
      cases config
  | addPeer rpcAddr =>
    cases stepped
    rcases process.node.addPeer_cases now rpcAddr with ⟨none, _⟩ | ⟨some, _, _, _, added, _⟩
    · cases none.symm.trans change
    · cases some.symm.trans change
      refine ⟨rfl, ?_⟩
      rw [withNode, added]
      exact List.mem_append_right _ (List.mem_singleton_self _)
  | _ => cases change

theorem adds_kept {configured : List String} (accounted : process.node.Accounted configured)
    (retaining : Retaining process input)
    (stepped : process.step codec now input = some after) :
    after.node.log.snapshotIndex = 0 ∧ ∀ addr ∈ process.node.peers,
      ∀ entry ∈ process.node.log.rest, entry.Adds addr → entry ∈ after.node.log.rest := by
  by_cases request : ∃ args, input = .appendEntries args
  · obtain ⟨args, rfl⟩ := request
    cases stepped
    rcases process.node.log_handleAppendEntries_cases now args with same | ⟨_, truncates, log⟩
    · rw [withNode, same]
      exact ⟨accounted.uncompacted, fun _ _ _ member _ => member⟩
    · rw [withNode, log]
      refine ⟨by rw [Log.snapshotIndex_mergeEntries, accounted.uncompacted], ?_⟩
      intro addr listed entry member adds
      rcases process.node.log.mem_mergeEntries member with kept | ⟨cut, truncated, dropped⟩
      · exact kept
      · exact absurd adds (retaining cut (truncates.trans truncated) entry dropped addr listed)
  · obtain ⟨more, log⟩ := grows_step retaining (fun args same => request ⟨args, same⟩) stepped
    rw [log]
    exact ⟨accounted.uncompacted, fun _ _ _ member _ => List.mem_append_left _ member⟩

theorem accounted_step {configured : List String} (accounted : process.node.Accounted configured)
    (retaining : Retaining process input)
    (stepped : process.step codec now input = some after) : after.node.Accounted configured := by
  obtain ⟨uncompacted, kept⟩ := adds_kept accounted retaining stepped
  refine ⟨uncompacted, fun addr listed => ?_⟩
  have before (listed : addr ∈ process.node.peers) : addr ∈ configured ∨
      ∃ entry ∈ after.node.log.rest, entry.Adds addr := by
    rcases accounted.peers addr listed with seed | ⟨entry, member, adds⟩
    · exact .inl seed
    · exact .inr ⟨entry, kept addr listed entry member adds, adds⟩
  obtain ⟨_, peers⟩ := reconfigured_step stepped
  rw [peers] at listed
  cases change : process.change? input with
  | none =>
    rw [change] at listed
    exact before listed
  | some entry =>
    rw [change] at listed
    rcases LogEntry.added_of_mem listed with old | ⟨op, addr⟩
    · exact before old
    · obtain ⟨config, member⟩ := change?_mem accounted.uncompacted retaining change stepped
      exact .inr ⟨entry, member, config, op, addr⟩

end Process

end KvStore

variable {ι : Type} [DecidableEq ι] {deployment : Deployment ι} {cluster : Cluster ι}

/-- Every peer of a node is in its configuration, or an entry of its log adds it. This asks
that no request truncates the entry of a peer the node has taken into its list: nobody
takes it out again. -/
theorem peers_accounted {moves : List (Move (Cluster ι) (Event ι))}
    (trace : deployment.system.Trace
      (fun cluster event => event.crashes = false ∧ event.Feeds Retaining cluster)
      deployment.initial moves cluster) (i : ι) {addr : String}
    (listed : addr ∈ (cluster.process i).node.peers) :
    addr ∈ (deployment.config i).peers ∨
      ∃ entry ∈ (cluster.process i).node.log.rest, entry.Adds addr := by
  have accounted : (cluster.process i).node.Accounted (deployment.config i).peers :=
    Deployment.process_invariant
      (fun i process => process.node.Accounted (deployment.config i).peers)
      (fun i => ⟨rfl, fun addr seed => .inl seed⟩)
      (fun _ _ steady crashes => absurd (steady.1.symm.trans crashes) nofun)
      (fun _ _ permitted => permitted.2) (fun _ _ _ _ _ => Process.accounted_step) trace i
  exact accounted.peers addr listed

/-- Node 1, the leader of term 1, appends an entry. Node 2, which has not received it, becomes
leader of term 2 with the vote of node 3, appends another one and sends it to node 1. -/
def entryReplaced (first second : Input) (index : Nat) : List (Event (Fin 3)) := [
  .run (.internal node1 first),
  .run (.serveVote 1 0 node2),
  .run (.tick (500 * millisecond)),
  .run (.internal node2 .electionTimeout),
  .run (.startPreVote node2),
  .run (.serveVote 2 1 node3),
  .run (.resumePreVote 2 1),
  .run (.becomeCandidate 2),
  .run (.startElection node2),
  .run (.serveVote 3 1 node3),
  .run (.resumeVote 3 1),
  .run (.internal node2 second),
  .run (.serveAppend index node1)]

/-- Node 2 adds node 4, and its entry replaces a write of node 1. -/
theorem peers_accounted_bootstrap :
    ∃ moves cluster, bootstrap.system.Trace
        (fun cluster event => event.crashes = false ∧ event.Feeds Retaining cluster)
        bootstrap.initial moves cluster ∧
      ((∃ move ∈ moves, ((move.before.process 0).node.log.get 1).term = 1) ∧
        ((cluster.process 0).node.log.get 1).term = 2 ∧
        "node4:7001" ∈ (cluster.process 1).node.peers) ∧
      ∃ entry ∈ (cluster.process 1).node.log.rest, entry.Adds "node4:7001" := by
  obtain ⟨moves, cluster, trace, checked⟩ := bootstrap.system.exists_trace
    (fun cluster event => event.crashes = false ∧ event.Feeds Retaining cluster) bootstrap.initial
    (firstElection ++ entryReplaced (.call setOp) (.addPeer "node4:7001") 2)
    (fun moves cluster => (∃ move ∈ moves, ((move.before.process 0).node.log.get 1).term = 1) ∧
      ((cluster.process 0).node.log.get 1).term = 2 ∧
      "node4:7001" ∈ (cluster.process 1).node.peers) (by decide +kernel)
  obtain ⟨held, replaced, listed⟩ := of_decide_eq_true checked
  exact ⟨moves, cluster, trace, ⟨held, replaced, listed⟩,
    (peers_accounted trace 1 listed).resolve_left (by decide +kernel)⟩

/-- The other way round, the addition is gone from the log of node 1, but node 4 is still its
peer. -/
theorem phantom_peer_after_truncation :
    ∃ moves cluster, bootstrap.system.Trace Smooth bootstrap.initial moves cluster ∧
      "node4:7001" ∈ (cluster.process 0).node.peers ∧
      "node4:7001" ∉ (bootstrap.config 0).peers ∧
      ∀ entry ∈ (cluster.process 0).node.log.rest, ¬entry.Adds "node4:7001" := by
  obtain ⟨moves, cluster, trace, checked⟩ := bootstrap.system.exists_trace Smooth
    bootstrap.initial
    (firstElection ++ entryReplaced (.addPeer "node4:7001") (.call setOp) 3)
    (fun _ cluster => "node4:7001" ∈ (cluster.process 0).node.peers ∧
      ∀ entry ∈ (cluster.process 0).node.log.rest, ¬entry.Adds "node4:7001") (by decide +kernel)
  obtain ⟨listed, gone⟩ := of_decide_eq_true checked
  exact ⟨moves, cluster, trace, listed, by decide +kernel, gone⟩

end RaftGo
