import RaftGo.KvStore.Lives
import RaftGo.Raft.Tracking

/-! The peer list of a process and what it knows of the peers while it leads, through
elections, membership changes and late replies. -/

namespace RaftGo.Raft

/-- The node and its peers are different nodes, so that every count over them counts nodes. -/
def Distinct (self : String) (peers : List String) : Prop := (self :: peers).Nodup

theorem LogEntry.distinct_reconfigure {self : String} {peers : List String}
    (distinct : Distinct self peers) (entry : LogEntry) :
    Distinct self (entry.reconfigure self peers) := by
  obtain ⟨others, nodup⟩ := List.nodup_cons.mp distinct
  unfold reconfigure
  cases entry.configOp with
  | unset => exact distinct
  | add =>
    dsimp only
    split
    · exact distinct
    · rename_i fresh
      obtain ⟨other, unlisted⟩ := not_or.mp fresh
      refine List.nodup_cons.mpr ⟨?_, ?_⟩
      · simp [others, Ne.symm other]
      · exact List.nodup_append.mpr ⟨nodup, List.nodup_singleton _, by
          rintro a member b last rfl
          exact unlisted (List.mem_singleton.mp last ▸ member)⟩
  | remove =>
    dsimp only
    split
    · exact List.nodup_singleton self
    · refine List.nodup_cons.mpr ⟨?_, nodup.filter _⟩
      exact fun member => others (List.mem_of_mem_filter member)

end RaftGo.Raft

namespace RaftGo.KvStore

open Raft Library

namespace Process

variable {codec : Codec} {now : Nat} {process after : Process} {input : Input}

/-- The acknowledgement a leader records: the peer, and up to which index it has the log. -/
def acknowledged? (process : Process) : Input → Option (String × Nat)
  | .appendReply peer term args reply =>
    if process.node.Records term reply.term ∧ reply.success = true
    then some (peer, args.prevLogIndex + args.entries.length) else none
  | .installReply peer term args reply =>
    if process.node.Records term reply.term then some (peer, args.lastIncludedIndex) else none
  | _ => none

/-- What a leader knows of its peers survives every input; only what is acknowledged and the
hint of a rejection have to be looked at. -/
theorem oversees_step {knows : String → Option Nat → Option Nat → Prop}
    (oversees : process.node.Oversees knows) (sustained : RaftNode.Sustained knows)
    (gained : ∀ peer index, process.acknowledged? input = some (peer, index) →
      peer ∈ process.node.peers → 0 < index → knows peer (some (index + 1)) (some index))
    (rejected : ∀ peer term args reply, input = .appendReply peer term args reply →
      process.node.Rejects term reply → peer ∈ process.node.peers →
      knows peer (some (max (process.node.conflictNext reply) 1)) (process.node.matchIndex peer))
    (stepped : process.step codec now input = some after) : after.node.Oversees knows := by
  cases input with
  | appendReply peer term args reply =>
    cases stepped
    refine oversees.handleAppendReply sustained now ?_ (rejected peer term args reply rfl)
    exact fun records accepted => gained peer _ (if_pos ⟨records, accepted⟩)
  | installReply peer term args reply =>
    cases stepped
    exact oversees.handleInstallReply sustained fun records => gained peer _ (if_pos records)
  | addPeer rpcAddr =>
    cases stepped
    exact oversees.addPeer sustained now rpcAddr
  | applyLoop branch =>
    cases applyLoop_cases stepped with
    | configure locked behind config =>
      have advanced : RaftNode.Oversees knows
          { process.node with lastApplied := process.node.lastApplied + 1 } :=
        oversees.frame rfl rfl rfl rfl
      exact advanced.applyConfigEntry sustained now _
    | _ => exact oversees.frame rfl rfl rfl rfl
  | _ => exact (changes_step (by simp) stepped).oversees (by simp [Input.parts]) sustained oversees

theorem oversees_start {knows : String → Option Nat → Option Nat → Prop} (codec : Codec)
    (cfg : Config) (threshold boots : Nat) (disk : Disk) :
    (Process.start codec cfg threshold boots disk).node.Oversees knows := by
  obtain ⟨term, data, booted⟩ := boot_eq cfg disk
  refine .idle ?_
  rw [Process.start, booted]
  intro leads
  cases leads

/-- The peer list of a process with a given configuration is in order. -/
structure Roster (cfg : Config) (process : Process) : Prop where
  selfAddr : process.node.config.selfAddr = cfg.selfAddr
  distinct : Distinct cfg.selfAddr process.node.peers
  tracked : process.node.Oversees fun _ => RaftNode.Recorded

theorem Roster.start {cfg : Config} (distinct : Distinct cfg.selfAddr cfg.peers) (codec : Codec)
    (threshold boots : Nat) (disk : Disk) :
    (Process.start codec cfg threshold boots disk).Roster cfg := by
  have remembers := Remembers.start codec cfg [] threshold boots disk
  refine ⟨remembers.selfAddr, ?_, oversees_start codec cfg threshold boots disk⟩
  rw [remembers.peers]
  exact distinct

theorem Roster.step {cfg : Config} (roster : process.Roster cfg)
    (stepped : process.step codec now input = some after) : after.Roster cfg := by
  obtain ⟨config, peers⟩ := reconfigured_step stepped
  refine ⟨by rw [config, roster.selfAddr], ?_, ?_⟩
  · rw [peers, roster.selfAddr]
    cases process.change? input with
    | none => exact roster.distinct
    | some entry => exact entry.distinct_reconfigure roster.distinct
  · refine oversees_step roster.tracked RaftNode.sustained_recorded ?_ ?_ stepped
    · exact fun _ _ _ _ _ => ⟨Nat.succ_pos _, rfl⟩
    · intro peer term args reply _ rejects listed
      exact ⟨Nat.le_max_right _ _, (roster.tracked rejects.1.1 peer listed).2⟩

end Process

/-- Started with a list of different peers that does not name itself, a node keeps such a
list over all of its lives, and as a leader it oversees every peer on it. -/
theorem roster_kept {codec : Codec} {cfg : Config} {threshold boots : Nat} {disk : Disk}
    (distinct : cfg.peers.Nodup) (others : cfg.selfAddr ∉ cfg.peers)
    {moves : List (Move Process Incident)} {process : Process}
    (trace : (Process.lives codec cfg threshold).Trace (fun _ _ => True)
      (Process.start codec cfg threshold boots disk) moves process) :
    process.node.peers.Nodup ∧ cfg.selfAddr ∉ process.node.peers ∧
      (process.node.state = .leader → ∀ peer ∈ process.node.peers,
        1 ≤ process.node.nextIndex.read peer ∧ (process.node.matchIndex peer).isSome = true) := by
  have roster : process.Roster cfg :=
    Process.lives_invariant
      (Process.Roster.start (List.nodup_cons.mpr ⟨others, distinct⟩) codec threshold)
      (fun _ _ _ _ roster _ => roster.step) trace
  obtain ⟨unlisted, nodup⟩ := List.nodup_cons.mp roster.distinct
  exact ⟨nodup, unlisted, roster.tracked⟩

/-- The node is elected, adds a peer, removes another one, and the removal is applied; a late
reply of the peer that has left is still recorded. -/
theorem roster_kept_leader :
    ∃ moves process, (Process.lives Codec.sample followerConfig 100).Trace (fun _ _ => True)
        (follower 100) moves process ∧
      (process.node.state = .leader ∧ process.node.peers = ["node2:7001", "node4:7001"] ∧
        process.node.nextIndex.read "node3:7001" = 3) ∧
      process.node.peers.Nodup ∧ "node1:7001" ∉ process.node.peers ∧
      (process.node.state = .leader → ∀ peer ∈ process.node.peers,
        1 ≤ process.node.nextIndex.read peer ∧
          (process.node.matchIndex peer).isSome = true) := by
  obtain ⟨moves, process, trace, checked⟩ :=
    (Process.lives Codec.sample followerConfig 100).exists_trace (fun _ _ => True) (follower 100) [
      .input 0 .becomeCandidate,
      .input 0 (.voteReply 1 1 2 { term := 1, voteGranted := true }),
      .input 0 (.addPeer "node4:7001"),
      .input 0 (.removePeer "node3:7001"),
      .input 0 (.appendReply "node2:7001" 1 ⟨1, "node1", 0, 0, [{ term := 1 }, { term := 1 }], 0⟩
        { term := 1, success := true }),
      .input 0 (.appendReply "node3:7001" 1 ⟨1, "node1", 0, 0, [{ term := 1 }, { term := 1 }], 0⟩
        { term := 1, success := true }),
      .input 0 (.applyLoop .commit),
      .input 0 (.applyLoop .commit),
      .input 0 (.applyLoop .commit),
      .input 0 (.appendReply "node3:7001" 1 ⟨1, "node1", 0, 0, [{ term := 1 }, { term := 1 }], 0⟩
        { term := 1, success := true })]
      (fun _ process => process.node.state = .leader ∧
        process.node.peers = ["node2:7001", "node4:7001"] ∧
        process.node.nextIndex.read "node3:7001" = 3) (by decide +kernel)
  exact ⟨moves, process, trace, of_decide_eq_true checked,
    roster_kept (by decide) (by decide) trace⟩

end RaftGo.KvStore
