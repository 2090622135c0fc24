import RaftGo.Cluster.ElectionSafety
import RaftGo.Cluster.Members
import RaftGo.Library.Majority

/-! Quorums during membership changes. A leader counts an added peer from the
moment it appends the entry, everybody else from the moment the entry is applied,
and a removal counts when it is applied. As long as nobody is more than one change
behind, any two majorities share a node; two changes are enough to separate them. -/

namespace RaftGo

open Raft KvStore Library

variable {ι : Type} [DecidableEq ι]

/-- Some process has applied the removal of the address. -/
def Removed (moves : List (Move (Cluster ι) (Event ι))) (addr : String) : Prop :=
  ∃ i, ∃ entry ∈ takenBy i moves, entry.Removes addr

/-- Whenever a call is accepted, every seed that has not been removed has applied
exactly the changes created so far. -/
def Paced (deployment : Deployment ι) (seeds : Finset ι)
    (earlier : List (Move (Cluster ι) (Event ι))) (move : Move (Cluster ι) (Event ι)) : Prop :=
  (move.event.created? move.before).isSome = true →
    ∀ p ∈ seeds, ¬ Removed earlier (deployment.addr p) → appliedBy p earlier = created earlier

variable {deployment : Deployment ι} {seeds : Finset ι}

theorem Removed.snoc {moves : List (Move (Cluster ι) (Event ι))} {addr : String}
    (removed : Removed moves addr) (move : Move (Cluster ι) (Event ι)) :
    Removed (moves ++ [move]) addr := by
  obtain ⟨i, entry, member, removes⟩ := removed
  refine ⟨i, entry, ?_, removes⟩
  rw [takenBy_snoc]
  exact List.mem_append_left _ member

theorem eq_or_eq_snoc {first second : List LogEntry} {entry : LogEntry} (lower : first <+: second)
    (upper : second <+: first ++ [entry]) : second = first ∨ second = first ++ [entry] := by
  rcases List.prefix_concat_iff.mp upper with whole | shorter
  · exact .inr whole
  · exact .inl (shorter.eq_of_length_le lower.length_le)

/-- How far a node is with the changes: what it has applied, and what its peers
show, lie between the settled changes and all of them. -/
structure Between (members : Finset String) (settled taken shown changes : List LogEntry)
    (node : RaftNode) : Prop where
  lower : settled <+: taken
  ahead : taken <+: shown
  upper : shown <+: changes
  shows : Shows members shown node

namespace Between

variable {members : Finset String} {settled taken shown changes : List LogEntry}
  {node after : RaftNode} {entry : LogEntry}

theorem apply (between : Between members settled taken shown changes node)
    (short : changes.length ≤ settled.length + 1) (made : entry ∈ changes)
    (fresh : entry ∉ taken) (stays : ¬ entry.Removes node.config.selfAddr)
    (config : after.config = node.config)
    (peers : after.peers = entry.reconfigure node.config.selfAddr node.peers) :
    Between members settled (taken ++ [entry]) changes changes after := by
  obtain ⟨rest, split⟩ := between.ahead.trans between.upper
  subst split
  have last : entry ∈ rest := (List.mem_append.mp made).resolve_left fresh
  have single : rest = [entry] := by
    have lower := between.lower.length_le
    have some := List.length_pos_of_mem last
    rw [List.length_append] at short
    obtain ⟨only, rfl⟩ := List.length_eq_one_iff.mp (show rest.length = 1 by omega)
    rw [List.mem_singleton.mp last]
  subst single
  refine ⟨between.lower.trans (List.prefix_append _ _), List.prefix_rfl, List.prefix_rfl, ?_⟩
  -- a leader shows its own addition before it applies it
  rcases eq_or_eq_snoc between.ahead between.upper with rfl | rfl
  · exact between.shows.snoc stays config peers
  · exact between.shows.again stays config peers

theorem await (between : Between members settled changes shown changes node) (entry : LogEntry) :
    Between members changes changes changes (changes ++ [entry]) node := by
  have current : shown = changes := between.upper.eq_of_length_le between.ahead.length_le
  subst current
  exact ⟨List.prefix_rfl, List.prefix_rfl, List.prefix_append _ _, between.shows⟩

/-- The node itself accepts an addition and shows it at once. -/
theorem accept (between : Between members settled changes shown changes node)
    (stays : ¬ entry.Removes node.config.selfAddr) (config : after.config = node.config)
    (peers : after.peers = entry.reconfigure node.config.selfAddr node.peers) :
    Between members changes changes (changes ++ [entry]) (changes ++ [entry]) after :=
  ⟨List.prefix_rfl, List.prefix_append _ _, List.prefix_rfl,
    (between.await entry).shows.snoc stays config peers⟩

theorem frame (between : Between members settled taken shown changes node)
    (config : after.config = node.config) (peers : after.peers = node.peers) :
    Between members settled taken shown changes after :=
  { between with shows := between.shows.frame config peers }

/-- Nodes between the same bounds differ in at most one address. -/
theorem near (members : Finset String) (lower : settled <+: changes)
    (short : changes.length ≤ settled.length + 1) :
    ∃ pivot, ∀ shown, settled <+: shown → shown <+: changes → ∀ addr, addr ≠ pivot →
      (addr ∈ alterAll members shown ↔ addr ∈ alterAll members settled) := by
  obtain ⟨rest, rfl⟩ := lower
  have few : rest.length = 0 ∨ rest.length = 1 := by
    rw [List.length_append] at short
    omega
  rw [List.length_eq_zero_iff, List.length_eq_one_iff] at few
  rcases few with rfl | ⟨entry, rfl⟩
  · refine ⟨"", fun shown above below addr _ => ?_⟩
    rw [List.append_nil] at below
    rw [below.eq_of_length_le above.length_le]
  · refine ⟨entry.configPeer, fun shown above below addr other => ?_⟩
    rcases eq_or_eq_snoc above below with rfl | rfl
    · rfl
    · rw [alterAll_snoc]
      exact LogEntry.mem_alter_of_ne other

theorem meet {taken' shown' : List LogEntry} {other : RaftNode} {one two : Finset String}
    (first : Between members settled taken shown changes node)
    (second : Between members settled taken' shown' changes other)
    (short : changes.length ≤ settled.length + 1)
    (inFirst : one ⊆ node.view) (inSecond : two ⊆ other.view)
    (majority : node.majority ≤ one.card) (majority' : other.majority ≤ two.card) :
    (one ∩ two).Nonempty := by
  have above := first.lower.trans first.ahead
  have above' := second.lower.trans second.ahead
  obtain ⟨pivot, near⟩ := near members (above.trans first.upper) short
  have size := node.card_view_le
  have size' := other.card_view_le
  unfold RaftNode.majority at majority majority'
  refine majorities_meet pivot ?_ inFirst inSecond (by omega) (by omega)
  intro addr apart
  rw [first.shows.view_eq, second.shows.view_eq, near _ above first.upper addr apart,
    near _ above' second.upper addr apart]

end Between

/-- No seed that has not been removed is more than one change behind. -/
structure Tracked (deployment : Deployment ι) (seeds : Finset ι)
    (moves : List (Move (Cluster ι) (Event ι))) (cluster : Cluster ι) : Prop where
  chronicle : Chronicle moves cluster
  selfAddr : ∀ p ∈ seeds, (cluster.process p).node.config.selfAddr = deployment.addr p
  between : ∃ settled, (created moves).length ≤ settled.length + 1 ∧
    ∀ p ∈ seeds, ¬ Removed moves (deployment.addr p) → ∃ shown,
      Between (deployment.members seeds) settled (appliedBy p moves) shown (created moves)
        (cluster.process p).node

namespace Tracked

variable {moves : List (Move (Cluster ι) (Event ι))} {cluster next : Cluster ι} {event : Event ι}

theorem initial (bootstrap : deployment.Bootstrap seeds) :
    Tracked deployment seeds [] deployment.initial where
  chronicle := .initial
  selfAddr p seed := bootstrap.selfAddr p seed
  between := ⟨[], Nat.zero_le _, fun _ seed _ => ⟨[], List.prefix_rfl, List.prefix_rfl,
    List.prefix_rfl, bootstrap.shows seed⟩⟩

theorem apply (tracked : Tracked deployment seeds moves cluster) (steady : event.crashes = false)
    (stepped : deployment.step cluster event = some next) (idle : event.created? cluster = none)
    {settled shown : List LogEntry} {p : ι} (seed : p ∈ seeds)
    (remains : ¬ Removed (moves ++ [⟨cluster, event, next⟩]) (deployment.addr p))
    (short : (created moves).length ≤ settled.length + 1)
    (between : Between (deployment.members seeds) settled (appliedBy p moves) shown
      (created moves) (cluster.process p).node) :
    ∃ shown, Between (deployment.members seeds) settled
      (appliedBy p (moves ++ [⟨cluster, event, next⟩])) shown (created moves)
      (next.process p).node := by
  have config := config_of_step steady stepped p
  have peers := peers_of_step steady stepped (by simp [idle]) p
  rw [appliedBy_snoc]
  cases applied : (event.taken? cluster p).filter (·.isConfig) with
  | none =>
    rw [applied] at peers
    rw [Option.toList_none, List.append_nil]
    exact ⟨shown, between.frame config peers⟩
  | some entry =>
    obtain ⟨taken, change⟩ := Option.filter_eq_some_iff.mp applied
    obtain ⟨made, index⟩ := tracked.chronicle.lineage.taken taken change
    have fresh : entry ∉ appliedBy p moves := by
      intro member
      obtain ⟨old, _⟩ := List.mem_filter.mp member
      have bound := (tracked.chronicle.applied p entry old change).2
      omega
    have stays : ¬ entry.Removes (cluster.process p).node.config.selfAddr := by
      rw [tracked.selfAddr p seed]
      intro removes
      refine remains ⟨p, entry, ?_, removes⟩
      rw [takenBy_snoc, taken]
      exact List.mem_append_right _ (List.mem_singleton_self entry)
    rw [applied] at peers
    exact ⟨_, between.apply short made fresh stays config peers⟩

/-- A call is accepted: everybody was up to date, so the changes so far are settled. -/
theorem accept {i : ι} {input : Input} (turn : Turn deployment cluster event next i input)
    {entry : LogEntry} (made : (cluster.process i).created? input = some entry)
    {settled shown : List LogEntry} {p : ι}
    (between : Between (deployment.members seeds) settled (created moves) shown
      (created moves) (cluster.process p).node) :
    ∃ shown, Between (deployment.members seeds) (created moves) (created moves) shown
      (created moves ++ [entry]) (next.process p).node := by
  obtain ⟨config, peers⟩ := turn.reconfigured p
  obtain ⟨_, ⟨early, adds⟩ | ⟨later, _⟩⟩ := Process.change?_of_created made
  · rw [early] at peers
    split at peers
    · have stays : ¬ entry.Removes (cluster.process p).node.config.selfAddr := by
        rintro ⟨removes, _⟩
        rw [adds] at removes
        cases removes
      exact ⟨_, between.accept stays config peers⟩
    · exact ⟨_, (between.await entry).frame config peers⟩
  · rw [later, ite_self] at peers
    exact ⟨_, (between.await entry).frame config peers⟩

theorem step (tracked : Tracked deployment seeds moves cluster) (steady : event.crashes = false)
    (paced : Paced deployment seeds moves ⟨cluster, event, next⟩)
    (stepped : deployment.step cluster event = some next) :
    Tracked deployment seeds (moves ++ [⟨cluster, event, next⟩]) next := by
  obtain ⟨settled, short, between⟩ := tracked.between
  have before {p : ι} (remains : ¬ Removed (moves ++ [⟨cluster, event, next⟩]) (deployment.addr p)) :
      ¬ Removed moves (deployment.addr p) := fun removed => remains (removed.snoc _)
  have selfAddr : ∀ p ∈ seeds, (next.process p).node.config.selfAddr = deployment.addr p := by
    intro p seed
    rw [config_of_step steady stepped p]
    exact tracked.selfAddr p seed
  refine ⟨tracked.chronicle.step steady stepped, selfAddr, ?_⟩
  rw [created_snoc]
  cases made : event.created? cluster with
  | none =>
    rw [Option.toList_none, List.append_nil]
    refine ⟨settled, short, fun p seed remains => ?_⟩
    obtain ⟨shown, bounds⟩ := between p seed (before remains)
    exact tracked.apply steady stepped made seed remains short bounds
  | some entry =>
    rcases turn_or_pause steady stepped with pause | ⟨i, input, turn⟩
    · rw [pause.created] at made
      cases made
    rw [turn.created] at made
    have silent (p : ι) : event.taken? cluster p = none := by
      rw [turn.taken, (Process.change?_of_created made).1, ite_self]
    refine ⟨created moves, by simp, fun p seed remains => ?_⟩
    obtain ⟨shown, bounds⟩ := between p seed (before remains)
    have current := paced (by simp [turn.created, made]) p seed (before remains)
    rw [appliedBy_snoc, silent, Option.filter_none, Option.toList_none, List.append_nil, current]
    rw [current] at bounds
    exact accept turn made bounds

end Tracked

/-- Quorum overlap: if every call waits until the seeds have applied the changes
before it, majorities of any two seeds that have not been removed share a node, in
every state of every run without crashes. -/
theorem quorum_overlap (bootstrap : deployment.Bootstrap seeds)
    {moves : List (Move (Cluster ι) (Event ι))} {cluster : Cluster ι}
    (trace : deployment.system.Trace (fun _ event => event.crashes = false)
      deployment.initial moves cluster)
    (paced : System.Throughout (Paced deployment seeds) [] moves)
    {p q : ι} (seed : p ∈ seeds) (seed' : q ∈ seeds)
    (remains : ¬ Removed moves (deployment.addr p)) (remains' : ¬ Removed moves (deployment.addr q))
    {one two : Finset String} (inOne : one ⊆ (cluster.process p).node.view)
    (inTwo : two ⊆ (cluster.process q).node.view)
    (majority : (cluster.process p).node.majority ≤ one.card)
    (majority' : (cluster.process q).node.majority ≤ two.card) : (one ∩ two).Nonempty := by
  have tracked : Tracked deployment seeds moves cluster :=
    trace.record_throughout (Tracked deployment seeds) paced (.initial bootstrap)
      fun _ _ _ _ tracked steady paced stepped => tracked.step steady paced stepped
  obtain ⟨settled, short, between⟩ := tracked.between
  obtain ⟨shown, bounds⟩ := between p seed remains
  obtain ⟨shown', bounds'⟩ := between q seed' remains'
  exact bounds.meet bounds' short inOne inTwo majority majority'

/-- The calls as they are meant to be made: one at a time, each only after the
leader it is made on has applied the changes before it. -/
def Serial (earlier : List (Move (Cluster ι) (Event ι))) (move : Move (Cluster ι) (Event ι)) :
    Prop :=
  (move.event.created? move.before).isSome = true →
    ∀ target ∈ move.event.input?, appliedBy target.1 earlier = created earlier

instance (entry : LogEntry) (addr : String) : Decidable (entry.Removes addr) :=
  inferInstanceAs (Decidable (_ ∧ _))

instance [Fintype ι] (moves : List (Move (Cluster ι) (Event ι))) (addr : String) :
    Decidable (Removed moves addr) :=
  inferInstanceAs (Decidable (∃ i, ∃ entry ∈ takenBy i moves, entry.Removes addr))

instance [Fintype ι] (earlier : List (Move (Cluster ι) (Event ι)))
    (move : Move (Cluster ι) (Event ι)) : Decidable (Paced deployment seeds earlier move) :=
  inferInstanceAs (Decidable (_ → ∀ p ∈ seeds, _ → _))

instance (earlier : List (Move (Cluster ι) (Event ι))) (move : Move (Cluster ι) (Event ι)) :
    Decidable (Serial earlier move) :=
  inferInstanceAs (Decidable (_ → ∀ target ∈ move.event.input?, _))

/-- `node4` is added, and nobody but the leader has heard of it. -/
theorem quorum_overlap_compose :
    ∃ moves cluster, compose.system.Trace (fun _ event => event.crashes = false)
        compose.initial moves cluster ∧
      System.Throughout (Paced compose {0, 1, 2}) [] moves ∧
      (cluster.process 0).node.view =
        {"node1:7001", "node2:7001", "node3:7001", "node4:7001"} ∧
      ∀ one ⊆ (cluster.process 0).node.view, ∀ two ⊆ (cluster.process 2).node.view,
        (cluster.process 0).node.majority ≤ one.card →
        (cluster.process 2).node.majority ≤ two.card → (one ∩ two).Nonempty := by
  obtain ⟨moves, cluster, trace, checked⟩ := compose.system.exists_trace
    (fun _ event => event.crashes = false) compose.initial
    (electionOf 0 2 ++ [.run (.internal 0 (.addPeer "node4:7001"))])
    (fun moves cluster => System.Throughout (Paced compose {0, 1, 2}) [] moves ∧
      (cluster.process 0).node.view =
        {"node1:7001", "node2:7001", "node3:7001", "node4:7001"} ∧
      ¬ Removed moves (compose.addr 0) ∧ ¬ Removed moves (compose.addr 2))
    (by decide +kernel)
  obtain ⟨paced, view, remains, remains'⟩ := of_decide_eq_true checked
  exact ⟨moves, cluster, trace, paced, view, fun one inOne two inTwo majority majority' =>
    quorum_overlap compose_bootstrap trace paced (by decide) (by decide) remains remains'
      inOne inTwo majority majority'⟩

/-- `node4` joins, with the help of `node2`, and then `node5`. -/
def twoJoins : List (Event (Fin 5)) := [
  .run (.internal node1 (.addPeer "node4:7001")),
  .run (.serveAppend 0 node2),
  .run (.resumeAppend 0),
  .run (.serveAppend 2 node4),
  .run (.resumeAppend 2),
  .run (.internal node1 (.applyLoop .commit)),
  .run (.internal node1 (.applyLoop .commit)),
  .run (.internal node1 (.addPeer "node5:7001"))]

/-- The leader applies the first addition before it accepts the second, but
`node3` has heard of neither: two of the old three are still a majority for it. -/
theorem disjoint_quorums_after_two_joins :
    ∃ moves cluster, compose.system.Trace Smooth compose.initial moves cluster ∧
      System.Throughout Serial [] moves ∧ (∀ addr, ¬ Removed moves addr) ∧
      ∃ one two : Finset String,
        one ⊆ (cluster.process 0).node.view ∧ (cluster.process 0).node.majority = one.card ∧
        two ⊆ (cluster.process 2).node.view ∧ (cluster.process 2).node.majority = two.card ∧
        one ∩ two = ∅ := by
  obtain ⟨moves, cluster, trace, checked⟩ := compose.system.exists_trace Smooth compose.initial
    (electionOf 0 2 ++ twoJoins)
    (fun moves cluster => System.Throughout Serial [] moves ∧
      (∀ i, ∀ entry ∈ takenBy i moves, entry.configOp ≠ .remove) ∧
      {"node1:7001", "node4:7001", "node5:7001"} ⊆ (cluster.process 0).node.view ∧
      (cluster.process 0).node.majority = 3 ∧
      {"node2:7001", "node3:7001"} ⊆ (cluster.process 2).node.view ∧
      (cluster.process 2).node.majority = 2)
    (by decide +kernel)
  obtain ⟨serial, additions, inOne, majority, inTwo, majority'⟩ := of_decide_eq_true checked
  refine ⟨moves, cluster, trace, serial, ?_, _, _, inOne, majority, inTwo, majority', by decide⟩
  rintro addr ⟨i, entry, member, removes, _⟩
  exact additions i entry member removes

end RaftGo
