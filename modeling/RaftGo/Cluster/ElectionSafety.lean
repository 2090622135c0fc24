import RaftGo.Cluster.Compose
import RaftGo.Cluster.Election

/-! Election safety. It holds in every run in which leaders keep hearing from a
quorum, and fails as soon as one steps down in `checkQuorum`: the step-down clears
`votedFor` without opening a new term, so the old leader can vote again in the
term it led. -/

namespace RaftGo

open Raft KvStore Library

section

variable {ι : Type}

/-- In this move node `i` executes `becomeLeader` in the term. -/
def Elects (i : ι) (term : Nat) (move : Move (Cluster ι) (Event ι)) : Prop :=
  (move.before.process i).node.state ≠ .leader ∧
    (move.after.process i).node.state = .leader ∧
    (move.after.process i).node.currentTerm = term

instance (i : ι) (term : Nat) (move : Move (Cluster ι) (Event ι)) :
    Decidable (Elects i term move) :=
  inferInstanceAs (Decidable (_ ∧ _ ∧ _))

variable [Fintype ι] [DecidableEq ι] {deployment : Deployment ι}

/-- Every state of a run agrees with the leaders of one history of ballots. -/
theorem leaders_of_run (mesh : deployment.FullMesh) {moves : List (Move (Cluster ι) (Event ι))}
    {cluster : Cluster ι}
    (trace : deployment.system.Trace
      (fun cluster event => event.Permitted LeadersHearQuorum cluster)
      deployment.initial moves cluster) :
    ∃ leader : Nat → Option ι, ∀ seen ∈ System.visited deployment.initial moves, ∀ i,
      (seen.process i).node.state = .leader →
        leader (seen.process i).node.currentTerm = some i := by
  obtain ⟨ghost, _, noted⟩ := Contract.Kept.run
    (fun cluster ghost => ∀ i, (cluster.process i).node.state = .leader →
      ghost.leader (cluster.process i).node.currentTerm = some i)
    (ballot_kept mesh) (fun _ event permitted => ⟨permitted, event.saves_any⟩)
    (plain_step fun _ _ _ permitted => permitted.1)
    (fun _ _ _ related i leads => (related.holds.process i).leader leads)
    (fun _ _ _ _ ⟨_, moved⟩ noting i leads => moved.leader_stable (noting i leads))
    trace plain_initial ballot_initial
  exact ⟨ghost.leader, noted⟩

/-- Election safety: while leaders hear from a quorum at their heartbeat ticks, no
two nodes become leader in the same term. -/
theorem election_safety (mesh : deployment.FullMesh)
    {moves : List (Move (Cluster ι) (Event ι))} {cluster : Cluster ι}
    (trace : deployment.system.Trace
      (fun cluster event => event.Permitted LeadersHearQuorum cluster)
      deployment.initial moves cluster)
    {first second : Move (Cluster ι) (Event ι)} (one : first ∈ moves) (two : second ∈ moves)
    {i j : ι} {term : Nat} (elected : Elects i term first) (elected' : Elects j term second) :
    i = j := by
  obtain ⟨leader, agrees⟩ := leaders_of_run mesh trace
  have led := agrees _ (System.mem_visited_of_move one) i elected.2.1
  have led' := agrees _ (System.mem_visited_of_move two) j elected'.2.1
  rw [elected.2.2] at led
  rw [elected'.2.2] at led'
  exact Option.some.inj (led.symm.trans led')

end

/-- A first election: the candidate wins term 1 with the vote of its second peer. -/
def electionOf {ι : Type} (candidate voter : ι) : List (Event ι) := [
  .run (.tick (250 * millisecond)),
  .run (.internal candidate .electionTimeout),
  .run (.startPreVote candidate),
  .run (.serveVote 0 1 voter),
  .run (.resumePreVote 0 1),
  .run (.becomeCandidate 0),
  .run (.startElection candidate),
  .run (.serveVote 1 1 voter),
  .run (.resumeVote 1 1)]

/-- Node 1 becomes leader with the vote of node 3. -/
def firstElection : List (Event (Fin 3)) := electionOf node1 node3

/-- Node 2, which hears nothing of it, stands in the same term; node 1 loses its
quorum and then answers the request of node 2. -/
def secondElection : List (Event (Fin 3)) := [
  .run (.tick (310 * millisecond)),
  .run (.internal node2 .electionTimeout),
  .run (.startPreVote node2),
  .run (.serveVote 2 1 node3),
  .run (.resumePreVote 2 1),
  .run (.becomeCandidate 2),
  .run (.startElection node2),
  .run (.tick (190 * millisecond)),
  .run (.internal node1 .heartbeat),
  .run (.serveVote 3 0 node1),
  .run (.resumeVote 3 0)]

theorem election_safety_bootstrap :
    ∃ moves cluster move, bootstrap.system.Trace
        (fun cluster event => event.Permitted LeadersHearQuorum cluster)
        bootstrap.initial moves cluster ∧ move ∈ moves ∧ Elects 0 1 move ∧
      ∀ other ∈ moves, ∀ j, Elects j 1 other → (0 : Fin 3) = j := by
  obtain ⟨moves, cluster, trace, checked⟩ := bootstrap.system.exists_trace
    (fun cluster event => event.Permitted LeadersHearQuorum cluster) bootstrap.initial
    firstElection (fun moves _ => moves.any fun move => decide (Elects 0 1 move))
    (by decide +kernel)
  obtain ⟨move, member, elected⟩ := List.any_eq_true.mp checked
  have elects := of_decide_eq_true elected
  exact ⟨moves, cluster, move, trace, member, elects,
    fun other present j others => election_safety bootstrap_mesh trace member present elects others⟩

/-- Two nodes become leader in term 1. -/
theorem two_leaders_after_quorum_loss :
    ∃ moves cluster first second, bootstrap.system.Trace
        (fun cluster event => event.Permitted (fun _ _ input => input.keepsMembership = true) cluster)
        bootstrap.initial moves cluster ∧
      first ∈ moves ∧ second ∈ moves ∧ Elects 0 1 first ∧ Elects 1 1 second := by
  obtain ⟨moves, cluster, trace, checked⟩ := bootstrap.system.exists_trace
    (fun cluster event => event.Permitted (fun _ _ input => input.keepsMembership = true) cluster)
    bootstrap.initial (firstElection ++ secondElection)
    (fun moves _ => (moves.any fun move => decide (Elects 0 1 move)) &&
      moves.any fun move => decide (Elects 1 1 move))
    (by decide +kernel)
  obtain ⟨one, two⟩ := Bool.and_eq_true_iff.mp checked
  obtain ⟨first, member, elected⟩ := List.any_eq_true.mp one
  obtain ⟨second, member', elected'⟩ := List.any_eq_true.mp two
  exact ⟨moves, cluster, first, second, trace, member, member', of_decide_eq_true elected,
    of_decide_eq_true elected'⟩

end RaftGo
