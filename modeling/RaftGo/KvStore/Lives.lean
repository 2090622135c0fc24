import RaftGo.KvStore.Runs
import RaftGo.Raft.Reconfigure
import RaftGo.Raft.Whole

/-! The peers of a process over its lives. A snapshot and a restart carry no
membership: a node knows its configuration and the changes that took effect since
it was started. -/

namespace RaftGo.KvStore

open Raft Library

namespace Process

variable {codec : Codec} {now : Nat} {process after : Process} {input : Input}

/-- The membership change that takes effect on the peers with an input. -/
def change? (process : Process) : Input → Option LogEntry
  | .applyLoop branch => (process.taken? (.applyLoop branch)).filter (·.isConfig)
  | .addPeer rpcAddr => process.node.addEntry? rpcAddr
  | _ => none

theorem change?_background (background : input.background = true)
    (other : ∀ rpcAddr, input ≠ .addPeer rpcAddr) : process.change? input = none := by
  cases input with
  | addPeer rpcAddr => exact absurd rfl (other rpcAddr)
  | applyLoop branch => cases background
  | _ => rfl

/-- The membership entry an input appends to the log. -/
def created? (process : Process) : Input → Option LogEntry
  | .addPeer rpcAddr => process.node.addEntry? rpcAddr
  | .removePeer rpcAddr => process.node.removeEntry? rpcAddr
  | _ => none

/-- An accepted call takes nothing from the log. An addition takes effect on the
peers at once, a removal does not. -/
theorem change?_of_created {entry : LogEntry} (made : process.created? input = some entry) :
    process.taken? input = none ∧
      (process.change? input = some entry ∧ entry.configOp = .add ∨
        process.change? input = none ∧ entry.configOp = .remove) := by
  cases input with
  | addPeer rpcAddr =>
    refine ⟨rfl, .inl ⟨made, ?_⟩⟩
    simp only [created?, RaftNode.addEntry?] at made
    split at made
    · cases made
      rfl
    · cases made
  | removePeer rpcAddr =>
    refine ⟨rfl, .inr ⟨rfl, ?_⟩⟩
    simp only [created?, RaftNode.removeEntry?] at made
    split at made
    · cases made
      rfl
    · cases made
  | _ => cases made

/-- Unless an addition is accepted, the changes that take effect are those taken
from the log. -/
theorem change?_of_taken (removals : ∀ entry ∈ process.created? input, entry.configOp = .remove) :
    process.change? input = (process.taken? input).filter (·.isConfig) := by
  cases made : process.created? input with
  | none =>
    cases input with
    | addPeer rpcAddr => exact made
    | _ => rfl
  | some entry =>
    obtain ⟨silent, ⟨_, adds⟩ | ⟨later, _⟩⟩ := change?_of_created made
    · rw [removals entry made] at adds
      cases adds
    · rw [silent, later, Option.filter_none]

/-- The peers move by the changes that take effect, and the address stays. -/
def Reconfigured (process after : Process) (input : Input) : Prop :=
  after.node.config = process.node.config ∧
    after.node.peers = reconfigureAll process.node.config.selfAddr process.node.peers
      (process.change? input).toList

theorem Reconfigured.of_same (config : after.node.config = process.node.config)
    (peers : after.node.peers = process.node.peers) (none : process.change? input = none) :
    Reconfigured process after input :=
  ⟨config, by rw [none, peers, Option.toList_none, reconfigureAll_nil]⟩

theorem reconfigured_addPeer {rpcAddr : String} :
    Reconfigured process (process.withNode (process.node.addPeer now rpcAddr).1)
      (.addPeer rpcAddr) := by
  rcases process.node.addPeer_cases now rpcAddr with
    ⟨none, same, _⟩ | ⟨some, _, other, fresh, added, _⟩
  · rw [same]
    exact .of_same rfl rfl none
  · rw [added]
    refine ⟨rfl, ?_⟩
    simp [change?, some, reconfigureAll, LogEntry.reconfigure, RaftNode.configEntry, other, fresh,
      withNode, RaftNode.trackPeer]

theorem reconfigured_applyLoop {branch : Branch}
    (moved : ApplyTransition codec now process after) :
    Reconfigured process after (.applyLoop branch) := by
  have idle (elsewhere : process.loop ≠ .relock) : process.change? (.applyLoop branch) = none := by
    simp [change?, taken?_elsewhere elsewhere]
  cases moved with
  | receiveSnapshot snap idling ready => exact .of_same rfl rfl (idle (by simp [idling]))
  | receiveCommit idling ready => exact .of_same rfl rfl (idle (by simp [idling]))
  | restore snap holding => exact .of_same rfl rfl (idle (by simp [holding]))
  | apply entry holding => exact .of_same rfl rfl (idle (by simp [holding]))
  | deliver msg blocked room => exact .of_same rfl rfl (idle (by simp [blocked]))
  | drained locked done =>
    exact .of_same rfl rfl (by simp [change?, taken?, locked, Nat.not_lt.mpr done])
  | take locked behind command =>
    exact .of_same rfl rfl (by simp [change?, taken?_behind branch locked behind, command])
  | configure locked behind config =>
    obtain ⟨state, leaderID, nextIndex, matchIndex, lastHeardFrom, _, applied⟩ :=
      RaftNode.applyConfigEntry_eq { process.node with lastApplied := process.node.lastApplied + 1 }
        now (process.node.log.get (process.node.lastApplied + 1))
    have changed : process.change? (.applyLoop branch) =
        some (process.node.log.get (process.node.lastApplied + 1)) := by
      simp [change?, taken?_behind branch locked behind, Option.filter, config]
    rw [applied]
    refine ⟨rfl, ?_⟩
    rw [changed]
    rfl

theorem reconfigured_step (stepped : process.step codec now input = some after) :
    Reconfigured process after input := by
  cases kind : input.background with
  | true =>
    by_cases adds : ∃ rpcAddr, input = .addPeer rpcAddr
    · obtain ⟨rpcAddr, rfl⟩ := adds
      cases stepped
      exact reconfigured_addPeer
    · have other : ∀ rpcAddr, input ≠ .addPeer rpcAddr :=
        fun rpcAddr request => adds ⟨rpcAddr, request⟩
      have same := unaffected_step kind other stepped
      exact .of_same same.node.config same.node.peers (change?_background kind other)
  | false =>
    cases input with
    | applyLoop branch => exact reconfigured_applyLoop (applyLoop_cases stepped)
    | installSnapshot args saved =>
      cases stepped
      obtain ⟨relieved, before, outcome⟩ := process.node.handleInstallSnapshot_cases args saved
      have same := before.unaffected
      rcases outcome with ignored | ⟨_, installed⟩
      · rw [ignored]
        exact .of_same same.config same.peers rfl
      · rw [installed]
        exact .of_same same.config same.peers rfl
    | readApplyCh saved =>
      cases readApplyCh_cases stepped with
      | take data holding =>
        rcases process.node.takeSnapshot_cases data saved with ignored | ⟨_, term, taken⟩
        · rw [ignored]
          exact .of_same rfl rfl rfl
        · rw [taken]
          exact .of_same rfl rfl rfl
      | routeEntry index term command result reader holding next =>
        obtain ⟨pending, calls, routed⟩ := routeEntry_eq
          { process with applied := process.applied + 1 } index term result
        rw [routed]
        exact .of_same rfl rfl rfl
      | _ => exact .of_same rfl rfl rfl
    | _ => cases kind

end Process

/-- What can happen to a process over its lives. -/
inductive Incident where
  | input (now : Nat) (input : Input)
  /-- It crashes between two critical sections and is started again. -/
  | crash
  /-- It crashes inside an input, after some but not all of its writes. -/
  | interrupt (now : Nat) (input : Input) (writes : Nat)

def Process.lives (codec : Codec) (cfg : Config) (threshold : Nat) : System Process Incident where
  step process
    | .input now input => process.step codec now input
    | .crash => some (.start codec cfg threshold (process.boots + 1) process.node.disk)
    | .interrupt now input writes => do
      let after ← process.step codec now input
      let disk ← (process.node.passing after.node)[writes]?
      some (.start codec cfg threshold (process.boots + 1) disk)

/-- An incident is an input, or it ends a life and the next one starts. -/
theorem Process.lives_cases {codec : Codec} {cfg : Config} {threshold : Nat}
    {process next : Process} {incident : Incident}
    (happened : (Process.lives codec cfg threshold).step process incident = some next) :
    (∃ now input, incident = .input now input ∧ process.step codec now input = some next) ∨
      (∀ now input, incident ≠ .input now input) ∧
        ∃ boots disk, next = .start codec cfg threshold boots disk := by
  cases incident with
  | input now input => exact .inl ⟨now, input, rfl, happened⟩
  | crash => exact .inr ⟨nofun, _, _, (Option.some.inj happened).symm⟩
  | interrupt now input writes =>
    simp only [Process.lives, Option.bind_eq_bind, Option.bind_eq_some_iff] at happened
    obtain ⟨_, _, disk, _, started⟩ := happened
    exact .inr ⟨nofun, _, disk, (Option.some.inj started).symm⟩

/-- An invariant of all lives is what holds after a start and survives every input. -/
theorem Process.lives_invariant {codec : Codec} {cfg : Config} {threshold boots : Nat} {disk : Disk}
    {allowed : Process → Incident → Prop} {moves : List (Move Process Incident)}
    {process : Process} {holds : Process → Prop}
    (started : ∀ boots disk, holds (.start codec cfg threshold boots disk))
    (preserved : ∀ process now input after, holds process → allowed process (.input now input) →
      process.step codec now input = some after → holds after)
    (trace : (Process.lives codec cfg threshold).Trace allowed
      (.start codec cfg threshold boots disk) moves process) : holds process := by
  refine trace.invariant (started boots disk) ?_
  intro process incident next before permitted happened
  rcases lives_cases happened with ⟨now, input, rfl, stepped⟩ | ⟨_, boots, disk, rfl⟩
  · exact preserved process now input next before permitted stepped
  · exact started boots disk

/-- The membership changes that took effect since the process was last started. -/
def changes (moves : List (Move Process Incident)) : List LogEntry :=
  moves.foldl (fun seen move => match move.event with
    | .input _ input => seen ++ (move.before.change? input).toList
    | _ => []) []

/-- The entries the loop takes are those of the history, and the peers change by
applying entries only: no `AddPeer` is accepted on this node. -/
def Follows (history : List LogEntry) (process : Process) : Incident → Prop
  | .input _ input =>
    (∀ entry ∈ process.taken? input, history[process.node.lastApplied]? = some entry) ∧
      ∀ entry ∈ process.change? input, process.taken? input = some entry
  | .crash => True
  | .interrupt _ _ _ => True

instance (history : List LogEntry) (process : Process) (incident : Incident) :
    Decidable (Follows history process incident) :=
  match incident with
  | .input _ _ => inferInstanceAs (Decidable (_ ∧ _))
  | .crash => isTrue trivial
  | .interrupt _ _ _ => isTrue trivial

/-- A node of the same configuration that applies the membership changes among
the entries one by one. -/
def uncompacted (cfg : Config) (now : Nat) (entries : List LogEntry) : RaftNode :=
  (entries.filter (·.isConfig)).foldl (fun node entry => node.applyConfigEntry now entry)
    (newRaftNode cfg)

theorem peers_uncompacted (cfg : Config) (now : Nat) (entries : List LogEntry) :
    (uncompacted cfg now entries).peers =
      reconfigureAll cfg.selfAddr cfg.peers (entries.filter (·.isConfig)) := by
  unfold uncompacted
  suffices both : ∀ list : List LogEntry,
      (list.foldl (fun node entry => RaftNode.applyConfigEntry node now entry)
        (newRaftNode cfg)).config.selfAddr = cfg.selfAddr ∧
      (list.foldl (fun node entry => RaftNode.applyConfigEntry node now entry)
        (newRaftNode cfg)).peers = reconfigureAll cfg.selfAddr cfg.peers list from (both _).2
  intro list
  induction list using List.reverseRecOn with
  | nil => exact ⟨rfl, rfl⟩
  | append_singleton earlier entry ih =>
    rw [List.foldl_append, List.foldl_cons, List.foldl_nil, reconfigureAll_snoc]
    generalize earlier.foldl (fun node entry => RaftNode.applyConfigEntry node now entry)
      (newRaftNode cfg) = node at ih
    obtain ⟨state, leaderID, nextIndex, matchIndex, lastHeardFrom, _, applied⟩ :=
      node.applyConfigEntry_eq now entry
    rw [applied]
    exact ⟨ih.1, by rw [ih.1, ih.2]⟩

theorem changes_snoc (moves : List (Move Process Incident)) (move : Move Process Incident) :
    changes (moves ++ [move]) = match move.event with
      | .input _ input => changes moves ++ (move.before.change? input).toList
      | _ => [] := by
  simp only [changes, List.foldl_append, List.foldl_cons, List.foldl_nil]

/-- What a process knows of the membership. -/
structure Remembers (cfg : Config) (history seen : List LogEntry) (process : Process) : Prop where
  selfAddr : process.node.config.selfAddr = cfg.selfAddr
  peers : process.node.peers = reconfigureAll cfg.selfAddr cfg.peers seen
  part : seen.Sublist ((history.take process.node.lastApplied).filter (·.isConfig))

namespace Remembers

variable {codec : Codec} {cfg : Config} {history seen : List LogEntry} {process after : Process}
  {now : Nat} {input : Input}

theorem start (codec : Codec) (cfg : Config) (history : List LogEntry) (threshold boots : Nat)
    (disk : Disk) :
    Remembers cfg history [] (Process.start codec cfg threshold boots disk) := by
  obtain ⟨term, data, booted⟩ := boot_eq cfg disk
  have node : (Process.start codec cfg threshold boots disk).node = boot cfg disk := rfl
  refine ⟨?_, ?_, List.nil_sublist _⟩
  · rw [node, booted]
    rfl
  · rw [node, booted]
    rfl

theorem step (remembers : Remembers cfg history seen process)
    (follows : Follows history process (.input now input))
    (stepped : process.step codec now input = some after) :
    Remembers cfg history (seen ++ (process.change? input).toList) after := by
  obtain ⟨config, peers⟩ := Process.reconfigured_step stepped
  refine ⟨by rw [config, remembers.selfAddr], ?_, ?_⟩
  · rw [peers, remembers.selfAddr, remembers.peers]
    simp [reconfigureAll]
  · have progress := Process.lastApplied_step stepped
    have extended : (history.take process.node.lastApplied ++ (process.taken? input).toList) <+:
        history.take after.node.lastApplied := by
      have grown := List.take_prefix_take_left progress (l := history)
      cases taken : process.taken? input with
      | none => simpa [taken] using grown
      | some entry => simpa [taken, List.take_add_one, follows.1 entry taken] using grown
    have kept := extended.sublist.filter (·.isConfig)
    rw [List.filter_append] at kept
    refine (remembers.part.append ?_).trans kept
    cases input with
    | applyLoop branch =>
      cases taken : process.taken? (.applyLoop branch) with
      | none => simp [Process.change?, taken]
      | some entry => cases kind : entry.isConfig <;> simp [Process.change?, taken, kind, Option.filter]
    | addPeer rpcAddr =>
      cases added : process.change? (.addPeer rpcAddr) with
      | none => exact List.nil_sublist _
      | some entry => cases follows.2 entry added
    | _ => exact List.nil_sublist _

end Remembers

/-- Over snapshots, installed snapshots, crashes and restarts a node ends up with
the peers of one that never compacted exactly when the changes its present life
skipped were redundant. -/
theorem membership_survives_compaction {codec : Codec} {cfg : Config} {threshold boots : Nat}
    {disk : Disk} {history : List LogEntry} (indexed : Indexed history)
    {moves : List (Move Process Incident)} {process : Process}
    (trace : (Process.lives codec cfg threshold).Trace (Follows history)
      (Process.start codec cfg threshold boots disk) moves process) (now : Nat) :
    (∀ addr, addr ∈ process.node.peers ↔
      addr ∈ (uncompacted cfg now (history.take process.node.lastApplied)).peers) ↔
    Redundant cfg (changes moves)
      ((history.take process.node.lastApplied).filter (·.isConfig)) := by
  have remembers : Remembers cfg history (changes moves) process := by
    refine trace.record (fun moves process => Remembers cfg history (changes moves) process)
      (.start ..) ?_
    intro moves process event after remembers follows stepped
    rw [changes_snoc moves ⟨process, event, after⟩]
    rcases Process.lives_cases stepped with ⟨now, input, rfl, fed⟩ | ⟨ends, boots, disk, rfl⟩
    · exact remembers.step follows fed
    · cases event with
      | input now input => exact absurd rfl (ends now input)
      | _ => exact .start ..
  have unique := ((indexed.of_initial (List.take_prefix process.node.lastApplied history)).nodup).filter
    (·.isConfig)
  rw [← outcome_eq_iff_redundant remembers.part unique]
  refine forall_congr' fun addr => ?_
  rw [remembers.peers, peers_uncompacted, mem_reconfigureAll, mem_reconfigureAll]
  exact Bool.eq_iff_iff.symm

/-- `AddPeer("node4:7001")` and `Set("x", "1")`, as a leader of term 1 appends them. -/
def joinThenSet : List LogEntry := [
  { term := 1, index := 1, isConfig := true, configOp := .add, configPeer := "node4:7001" },
  { term := 1, index := 2 }]

/-- Both entries arrive committed and are applied. -/
def joinApplied : List Incident := [
  .input 0 (.appendEntries {
    term := 1
    leaderID := "node2"
    prevLogIndex := 0
    prevLogTerm := 0
    entries := joinThenSet
    leaderCommit := 2 }),
  .input 0 (.applyLoop .commit),
  .input 0 (.applyLoop .commit),
  .input 0 (.applyLoop .commit),
  .input 0 (.applyLoop .commit),
  .input 0 (.applyLoop .commit)]

/-- The node takes a snapshot at index 2, crashes and is started again. -/
def joinForgotten : List Incident := joinApplied ++ [
  .input 0 (.readApplyCh true),
  .input 0 (.readApplyCh true),
  .input 0 (.readApplyCh true),
  .input 0 (.readApplyCh true),
  .crash]

/-- `RemovePeer("node4:7001")`, appended behind the two. -/
def node4Leaves : LogEntry :=
  { term := 1, index := 3, isConfig := true, configOp := .remove, configPeer := "node4:7001" }

theorem indexed_joinSetLeave : Indexed (joinThenSet ++ [node4Leaves]) := by
  intro position entry found
  match position with
  | 0 => cases found; rfl
  | 1 => cases found; rfl
  | 2 => cases found; rfl
  | _ + 3 => simp [joinThenSet] at found

/-- The peer has left again, so it does not matter who has seen it join. -/
theorem redundant_join : Redundant followerConfig [node4Leaves]
    ((joinThenSet ++ [node4Leaves]).filter (·.isConfig)) := by
  intro earlier entry later addr verdict split named silent unseen
  match earlier with
  | [] =>
    obtain ⟨rfl, rfl⟩ := List.cons.inj split
    by_cases same : "node4:7001" = addr
    · subst same
      exact absurd (silent node4Leaves (List.mem_singleton_self _)) (by decide)
    · simp [LogEntry.effect?, same] at named
  | [_] =>
    obtain ⟨rfl, _⟩ := List.cons.inj (List.cons.inj split).2
    exact absurd (List.mem_singleton_self _) unseen
  | _ :: _ :: _ => simp [joinThenSet, node4Leaves] at split

/-- A follower whose snapshot has swallowed that a peer joined, and that sees it leave. -/
theorem membership_survives_compaction_follower :
    ∃ moves process, (Process.lives Codec.sample followerConfig 1).Trace
        (Follows (joinThenSet ++ [node4Leaves])) (follower 1) moves process ∧
      (process.node.lastApplied = 3 ∧ process.node.log.snapshotIndex = 2 ∧
        changes moves = [node4Leaves]) ∧
      ∀ addr, addr ∈ process.node.peers ↔ addr ∈ (uncompacted followerConfig 0
        ((joinThenSet ++ [node4Leaves]).take process.node.lastApplied)).peers := by
  obtain ⟨moves, process, trace, checked⟩ :=
    (Process.lives Codec.sample followerConfig 1).exists_trace
      (Follows (joinThenSet ++ [node4Leaves])) (follower 1) (joinForgotten ++ [
        .input 0 (.appendEntries {
          term := 1
          leaderID := "node2"
          prevLogIndex := 2
          prevLogTerm := 1
          entries := [node4Leaves]
          leaderCommit := 3 }),
        .input 0 (.applyLoop .commit),
        .input 0 (.applyLoop .commit)])
      (fun moves process => process.node.lastApplied = 3 ∧ process.node.log.snapshotIndex = 2 ∧
        changes moves = [node4Leaves]) (by decide +kernel)
  obtain ⟨applied, boundary, seen⟩ := of_decide_eq_true checked
  refine ⟨moves, process, trace, ⟨applied, boundary, seen⟩,
    (membership_survives_compaction indexed_joinSetLeave trace 0).mpr ?_⟩
  rw [applied, seen]
  exact redundant_join

/-- Before it sees that, it has lost `node4`. -/
theorem restart_forgets_peer :
    ∃ moves process, (Process.lives Codec.sample followerConfig 1).Trace (Follows joinThenSet)
        (follower 1) moves process ∧ process.node.lastApplied = 2 ∧
      "node4:7001" ∉ process.node.peers ∧
      "node4:7001" ∈ (uncompacted followerConfig 0
        (joinThenSet.take process.node.lastApplied)).peers := by
  obtain ⟨moves, process, trace, checked⟩ :=
    (Process.lives Codec.sample followerConfig 1).exists_trace (Follows joinThenSet) (follower 1)
      joinForgotten
      (fun _ process => process.node.lastApplied = 2 ∧ "node4:7001" ∉ process.node.peers ∧
        "node4:7001" ∈ (uncompacted followerConfig 0
          (joinThenSet.take process.node.lastApplied)).peers) (by decide +kernel)
  exact ⟨moves, process, trace, of_decide_eq_true checked⟩

end RaftGo.KvStore
