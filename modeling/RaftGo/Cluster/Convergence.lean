import RaftGo.Cluster.ElectionSafety
import RaftGo.Cluster.Members

/-! Membership convergence. Every node computes its view from the configuration it
started with and the changes it applies, so a node that joins without peers never
learns of those that were there before. While members only leave, all views agree
once everything is applied. -/

namespace RaftGo

open Raft KvStore Library

variable {ι : Type} [DecidableEq ι]

/-- The members once the changes of a history are applied. -/
def Deployment.current (deployment : Deployment ι) (seeds : Finset ι)
    (history : List LogEntry) : Finset String :=
  alterAll (deployment.members seeds) (history.filter (·.isConfig))

/-- No crash, and no addition is accepted. -/
def Departing (cluster : Cluster ι) (event : Event ι) : Prop :=
  event.crashes = false ∧ ∀ entry ∈ event.created? cluster, entry.configOp = .remove

instance (cluster : Cluster ι) (event : Event ι) : Decidable (Departing cluster event) :=
  inferInstanceAs (Decidable (_ ∧ ∀ entry ∈ event.created? cluster, _))

variable {deployment : Deployment ι} {seeds : Finset ι}

/-- Every seed that has not applied its own removal shows what it has applied. -/
structure Shrinking (deployment : Deployment ι) (seeds : Finset ι)
    (moves : List (Move (Cluster ι) (Event ι))) (cluster : Cluster ι) : Prop where
  chronicle : Chronicle moves cluster
  removals : ∀ entry ∈ created moves, entry.configOp = .remove
  selfAddr : ∀ p ∈ seeds, (cluster.process p).node.config.selfAddr = deployment.addr p
  shows : ∀ p ∈ seeds, (∀ entry ∈ appliedBy p moves, ¬ entry.Removes (deployment.addr p)) →
    Shows (deployment.members seeds) (appliedBy p moves) (cluster.process p).node

namespace Shrinking

variable {moves : List (Move (Cluster ι) (Event ι))} {cluster next : Cluster ι} {event : Event ι}

theorem initial (bootstrap : deployment.Bootstrap seeds) :
    Shrinking deployment seeds [] deployment.initial where
  chronicle := .initial
  removals entry member := by cases member
  selfAddr p seed := bootstrap.selfAddr p seed
  shows _ seed _ := bootstrap.shows seed

theorem step (shrinking : Shrinking deployment seeds moves cluster)
    (departing : Departing cluster event) (stepped : deployment.step cluster event = some next) :
    Shrinking deployment seeds (moves ++ [⟨cluster, event, next⟩]) next := by
  obtain ⟨steady, leaving⟩ := departing
  refine ⟨shrinking.chronicle.step steady stepped, ?_, ?_, ?_⟩
  · intro entry member
    rw [created_snoc] at member
    rcases List.mem_append.mp member with old | new
    · exact shrinking.removals entry old
    · exact leaving entry (Option.mem_toList.mp new)
  · intro p seed
    rw [config_of_step steady stepped p]
    exact shrinking.selfAddr p seed
  · intro p seed stays
    have config := config_of_step steady stepped p
    have peers := peers_of_step steady stepped leaving p
    rw [appliedBy_snoc] at stays ⊢
    have shows := shrinking.shows p seed fun entry old => stays entry (List.mem_append_left _ old)
    cases applied : (event.taken? cluster p).filter (·.isConfig) with
    | none =>
      rw [applied] at peers
      rw [Option.toList_none, List.append_nil]
      exact shows.frame config peers
    | some entry =>
      rw [applied] at peers stays
      have remains := stays entry (List.mem_append_right _ (List.mem_singleton_self entry))
      rw [← shrinking.selfAddr p seed] at remains
      exact shows.snoc remains config peers

end Shrinking

/-- Membership convergence: while members only leave, whenever every current member
has applied the whole history, each of them has the same view, the membership. -/
theorem membership_convergence (bootstrap : deployment.Bootstrap seeds)
    {moves : List (Move (Cluster ι) (Event ι))} {cluster : Cluster ι}
    (trace : deployment.system.Trace Departing deployment.initial moves cluster)
    {history : List LogEntry}
    (applied : ∀ i, deployment.addr i ∈ deployment.current seeds history →
      takenBy i moves = history)
    {i : ι} (member : deployment.addr i ∈ deployment.current seeds history) :
    (cluster.process i).node.view = deployment.current seeds history := by
  have shrinking : Shrinking deployment seeds moves cluster :=
    trace.record (Shrinking deployment seeds) (.initial bootstrap)
      fun _ _ _ _ shrinking departing stepped => shrinking.step departing stepped
  have changes : appliedBy i moves = history.filter (·.isConfig) := by
    rw [appliedBy, applied i member]
  have removals : ∀ entry ∈ appliedBy i moves, entry.configOp = .remove := by
    intro entry present
    obtain ⟨taken, config⟩ := List.mem_filter.mp present
    exact shrinking.removals entry (shrinking.chronicle.applied i entry taken config).1
  unfold Deployment.current at member ⊢
  rw [← changes] at member ⊢
  obtain ⟨original, stays⟩ := mem_alterAll_of_removals removals member
  obtain ⟨j, seed, same⟩ := Finset.mem_image.mp original
  have seeded : i ∈ seeds := bootstrap.addr_injective same ▸ seed
  exact (shrinking.shows i seeded stays).view_eq

/-- `node3` is removed; `node1` and `node2` apply it. -/
def oneRemoval : List (Event (Fin 5)) := [
  .run (.internal node1 (.removePeer "node3:7001")),
  .run (.serveAppend 0 node2),
  .run (.resumeAppend 0),
  .run (.internal node1 .heartbeat),
  .run (.serveAppend 2 node2),
  .run (.internal node1 (.applyLoop .commit)),
  .run (.internal node1 (.applyLoop .commit)),
  .run (.internal node2 (.applyLoop .commit)),
  .run (.internal node2 (.applyLoop .commit))]

theorem membership_convergence_compose :
    ∃ moves cluster history, compose.system.Trace Departing compose.initial moves cluster ∧
      compose.current {0, 1, 2} history = {"node1:7001", "node2:7001"} ∧
      (cluster.process 0).node.view = compose.current {0, 1, 2} history ∧
      (cluster.process 1).node.view = compose.current {0, 1, 2} history := by
  obtain ⟨moves, cluster, trace, checked⟩ := compose.system.exists_trace Departing compose.initial
    (electionOf 0 2 ++ oneRemoval)
    (fun moves _ =>
      compose.current {0, 1, 2} (takenBy 0 moves) = {"node1:7001", "node2:7001"} ∧
      ∀ i, compose.addr i ∈ compose.current {0, 1, 2} (takenBy 0 moves) →
        takenBy i moves = takenBy 0 moves)
    (by decide +kernel)
  obtain ⟨members, applied⟩ := of_decide_eq_true checked
  refine ⟨moves, cluster, takenBy 0 moves, trace, members, ?_, ?_⟩
  · exact membership_convergence compose_bootstrap trace applied (by rw [members]; decide)
  · exact membership_convergence compose_bootstrap trace applied (by rw [members]; decide)

/-- `node4` is added, and all four members apply it. -/
def oneJoin : List (Event (Fin 5)) := [
  .run (.internal node1 (.addPeer "node4:7001")),
  .run (.serveAppend 0 node2),
  .run (.serveAppend 1 node3),
  .run (.serveAppend 2 node4),
  .run (.resumeAppend 0),
  .run (.resumeAppend 1),
  .run (.resumeAppend 2),
  .run (.internal node1 .heartbeat),
  .run (.serveAppend 3 node2),
  .run (.serveAppend 4 node3),
  .run (.serveAppend 5 node4)] ++
  ([node1, node2, node3, node4].map fun i => .run (.internal i (.applyLoop .commit))) ++
  ([node1, node2, node3, node4].map fun i => .run (.internal i (.applyLoop .commit)))

/-- Every member holds the whole history, committed and applied, but `node4` knows
only itself. -/
theorem joiner_view_diverges :
    ∃ moves cluster history, compose.system.Trace Smooth compose.initial moves cluster ∧
      (∀ i, compose.addr i ∈ compose.current {0, 1, 2} history →
        takenBy i moves = history ∧ (cluster.process i).node.log.rest = history ∧
        (cluster.process i).node.commitIndex = history.length ∧
        (cluster.process i).node.lastApplied = history.length) ∧
      compose.addr 0 ∈ compose.current {0, 1, 2} history ∧
      compose.addr 3 ∈ compose.current {0, 1, 2} history ∧
      (cluster.process 0).node.view =
        {"node1:7001", "node2:7001", "node3:7001", "node4:7001"} ∧
      (cluster.process 3).node.view = {"node4:7001"} := by
  obtain ⟨moves, cluster, trace, checked⟩ := compose.system.exists_trace Smooth compose.initial
    (electionOf 0 2 ++ oneJoin)
    (fun moves cluster =>
      (∀ i, compose.addr i ∈ compose.current {0, 1, 2} (takenBy 0 moves) →
        takenBy i moves = takenBy 0 moves ∧
        (cluster.process i).node.log.rest = takenBy 0 moves ∧
        (cluster.process i).node.commitIndex = (takenBy 0 moves).length ∧
        (cluster.process i).node.lastApplied = (takenBy 0 moves).length) ∧
      compose.addr 0 ∈ compose.current {0, 1, 2} (takenBy 0 moves) ∧
      compose.addr 3 ∈ compose.current {0, 1, 2} (takenBy 0 moves) ∧
      (cluster.process 0).node.view =
        {"node1:7001", "node2:7001", "node3:7001", "node4:7001"} ∧
      (cluster.process 3).node.view = {"node4:7001"})
    (by decide +kernel)
  exact ⟨moves, cluster, takenBy 0 moves, trace, of_decide_eq_true checked⟩

end RaftGo
