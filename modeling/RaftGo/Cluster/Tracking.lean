import Mathlib.Data.List.DropRight
import RaftGo.Cluster.Inputs
import RaftGo.Cluster.Representation
import RaftGo.Cluster.Safety
import RaftGo.KvStore.Roster

/-! Replies in flight: several goroutines process replies of one peer, built from different
versions of the log, in any order. -/

namespace RaftGo

open Raft KvStore Library

variable {ι : Type}

/-- The input an event gives to a process that stays up. -/
def Event.fed? (cluster : Cluster ι) : Event ι → Option (ι × Input)
  | .run action => action.input? cluster
  | _ => none

/-- With this move the node, as leader of the term, records that the peer has an entry. -/
def Acknowledges (i : ι) (term : Nat) (peer : String) (move : Move (Cluster ι) (Event ι)) : Prop :=
  ∃ fed ∈ move.event.fed? move.before, fed.1 = i ∧
    (move.before.process i).node.currentTerm = term ∧
      ∃ ack ∈ (move.before.process i).acknowledged? fed.2, ack.1 = peer ∧ 0 < ack.2

/-- The last moves, from where on the node has had the peer on its list. -/
def sinceListed (i : ι) (peer : String) (moves : List (Move (Cluster ι) (Event ι))) :
    List (Move (Cluster ι) (Event ι)) :=
  moves.rtakeWhile fun move => peer ∈ (move.before.process i).node.peers

/-- In one of these the node has recorded that the peer has an entry. -/
def Acknowledged (i : ι) (term : Nat) (peer : String)
    (moves : List (Move (Cluster ι) (Event ι))) : Prop :=
  ∃ move ∈ sinceListed i peer moves, Acknowledges i term peer move

/-- A rejection is recorded only where no acknowledgement has been. -/
def Timely (acknowledged : Nat → String → Prop) (process : Process) : Input → Prop
  | .appendReply peer term _ reply => process.node.Rejects term reply → ¬acknowledged term peer
  | _ => True

/-- No rejection of a peer is recorded after an acknowledgement. -/
def RepliesInOrder (earlier : List (Move (Cluster ι) (Event ι)))
    (move : Move (Cluster ι) (Event ι)) : Prop :=
  ∀ fed ∈ move.event.fed? move.before,
    Timely (fun term peer => Acknowledged fed.1 term peer earlier)
      (move.before.process fed.1) fed.2

variable {cluster : Cluster ι} {i : ι} {peer : String}
  {moves : List (Move (Cluster ι) (Event ι))} {move : Move (Cluster ι) (Event ι)}

theorem sinceListed_snoc (listed : peer ∈ (move.before.process i).node.peers) :
    sinceListed i peer (moves ++ [move]) = sinceListed i peer moves ++ [move] :=
  List.rtakeWhile_concat_pos _ _ _ (decide_eq_true listed)

/-- A leader sends every peer what lies behind what the peer has acknowledged, and if that is
an entry it is on record. -/
def Tracking (moves : List (Move (Cluster ι) (Event ι))) (cluster : Cluster ι) (i : ι) : Prop :=
  (cluster.process i).node.Oversees
    (RaftNode.Ahead fun peer => Acknowledged i (cluster.process i).node.currentTerm peer moves)

namespace Tracking

theorem started {deployment : Deployment ι} {boots : Nat} {disk : Disk}
    (started : cluster.process i = deployment.startProcess i boots disk) :
    Tracking moves cluster i := by
  unfold Tracking
  rw [started]
  exact Process.oversees_start _ _ _ boots disk

/-- What was on record stays so for the peers the node has on its list. -/
theorem snoc (tracking : Tracking moves move.before i) :
    (move.before.process i).node.Oversees (RaftNode.Ahead fun peer =>
      Acknowledged i (move.before.process i).node.currentTerm peer (moves ++ [move])) := by
  refine tracking.mono fun peer listed next matched known => ⟨known.1, fun some => ?_⟩
  obtain ⟨earlier, member, acknowledges⟩ := known.2 some
  refine ⟨earlier, ?_, acknowledges⟩
  rw [sinceListed_snoc listed]
  exact List.mem_append_left _ member

theorem rests (tracking : Tracking moves move.before i)
    (same : move.after.process i = move.before.process i) :
    Tracking (moves ++ [move]) move.after i := by
  unfold Tracking
  rw [same]
  exact tracking.snoc

theorem turn {input : Input} {codec : Codec} {now : Nat} (tracking : Tracking moves move.before i)
    (ordered : RepliesInOrder moves move) (given : move.event.fed? move.before = some (i, input))
    (stepped : (move.before.process i).step codec now input = some (move.after.process i)) :
    Tracking (moves ++ [move]) move.after i := by
  have timely := ordered _ given
  have oversees : (move.after.process i).node.Oversees (RaftNode.Ahead fun peer =>
      Acknowledged i (move.before.process i).node.currentTerm peer (moves ++ [move])) := by
    refine Process.oversees_step tracking.snoc (RaftNode.sustained_ahead _) ?_ ?_ stepped
    · intro peer index acknowledged listed entry
      refine ⟨Nat.lt_succ_self _, fun _ => ⟨move, ?_, _, given, rfl, rfl, _, acknowledged, rfl,
        entry⟩⟩
      rw [sinceListed_snoc listed]
      exact List.mem_append_right _ (List.mem_singleton_self move)
    · rintro peer term args reply rfl rejects listed
      -- nothing is on record for the peer, so it has acknowledged nothing
      have none : ¬0 < ((move.before.process i).node.matchIndex peer).getD 0 := by
        intro some
        refine timely rejects ?_
        rw [← rejects.1.2.1]
        exact (tracking rejects.1.1 peer listed).2 some
      refine ⟨?_, fun some => absurd some none⟩
      exact Nat.lt_of_le_of_lt (Nat.le_of_not_lt none) (Nat.le_max_right _ 1)
  -- a node that leads after the input has not changed its term with it
  intro leads
  have term : (move.after.process i).node.currentTerm =
      (move.before.process i).node.currentTerm := by
    cases Process.standing_step stepped with
    | keeps _ same => exact same
    | wins _ _ same => exact same
    | yields follows _ => cases leads.symm.trans follows
    | stands stands _ => cases leads.symm.trans stands
  rw [term]
  exact oversees leads

end Tracking

variable [DecidableEq ι] {deployment : Deployment ι}

theorem Tracking.step {cluster next : Cluster ι} {event : Event ι}
    (tracking : ∀ i, Tracking moves cluster i)
    (ordered : RepliesInOrder moves ⟨cluster, event, next⟩)
    (stepped : deployment.step cluster event = some next) (i : ι) :
    Tracking (moves ++ [⟨cluster, event, next⟩]) next i := by
  cases crashes : event.crashes with
  | true =>
    obtain ⟨j, disk, rfl, _⟩ := crash_cases crashes stepped
    by_cases restarts : i = j
    · subst restarts
      exact Tracking.started (Function.update_self _ _ _)
    · exact (tracking i).rests (Function.update_of_ne restarts _ _)
  | false =>
    cases event with
    | run action =>
      rcases Deployment.act_input stepped with same | ⟨j, input, after, given, moved, updated⟩
      · exact (tracking i).rests (congrFun same i)
      · by_cases acts : i = j
        · subst acts
          refine (tracking i).turn ordered given (moved.trans (congrArg some ?_))
          rw [updated, Function.update_self]
        · exact (tracking i).rests (by rw [updated, Function.update_of_ne acts])
    | _ => cases crashes

/-- Whatever the order of replies otherwise, a leader sends a peer what lies behind what the
peer has acknowledged if it records no rejection of the peer after an acknowledgement:
`sendToPeer` takes the hint of a rejection without comparing. -/
theorem next_index_ahead
    (trace : deployment.system.Trace (fun _ _ => True) deployment.initial moves cluster)
    (ordered : System.Throughout RepliesInOrder [] moves)
    (leads : (cluster.process i).node.state = .leader)
    (listed : peer ∈ (cluster.process i).node.peers) :
    (cluster.process i).node.matchIndex.read peer <
      (cluster.process i).node.nextIndex.read peer := by
  have tracking : ∀ i, Tracking moves cluster i := by
    refine trace.record_throughout (fun moves cluster => ∀ i, Tracking moves cluster i) ordered
      (fun i => Tracking.started rfl) ?_
    intro moves cluster event next tracking _ ordered stepped
    exact Tracking.step tracking ordered stepped
  exact (tracking i leads peer listed).1

instance decidableTimely (acknowledged : Nat → String → Prop)
    [∀ term peer, Decidable (acknowledged term peer)] (process : Process) (input : Input) :
    Decidable (Timely acknowledged process input) := by
  induction input using Input.casesOn with
  | appendReply peer term args reply =>
    exact inferInstanceAs (Decidable (process.node.Rejects term reply → ¬acknowledged term peer))
  | _ => exact isTrue trivial

instance decidableAcknowledged (i : ι) (term : Nat) (peer : String)
    (moves : List (Move (Cluster ι) (Event ι))) : Decidable (Acknowledged i term peer moves) :=
  inferInstanceAs (Decidable (∃ move ∈ sinceListed i peer moves,
    ∃ fed ∈ move.event.fed? move.before, fed.1 = i ∧ _ ∧
      ∃ ack ∈ (move.before.process i).acknowledged? fed.2, ack.1 = peer ∧ 0 < ack.2))

instance decidableRepliesInOrder (earlier : List (Move (Cluster ι) (Event ι)))
    (move : Move (Cluster ι) (Event ι)) : Decidable (RepliesInOrder earlier move) :=
  inferInstanceAs (Decidable (∀ fed ∈ move.event.fed? move.before, Timely _ _ fed.2))

/-- Node 3, which has the write, leads term 2 and sends two heartbeats to node 2, which does
not have it. Both are rejected; after the first rejection a third one brings the entry. -/
def heartbeatsOvertaken : List (Event (Fin 3)) := [
  .run (.internal node3 .heartbeat),
  .run (.internal node3 .heartbeat),
  .run (.serveAppend 3 node2),
  .run (.serveAppend 5 node2),
  .run (.resumeAppend 3),
  .run (.internal node3 .heartbeat),
  .run (.serveAppend 7 node2),
  .run (.resumeAppend 7)]

theorem next_index_ahead_bootstrap :
    ∃ moves cluster, bootstrap.system.Trace (fun _ _ => True) bootstrap.initial moves cluster ∧
      System.Throughout RepliesInOrder [] moves ∧
      (cluster.process 2).node.matchIndex.read "node2:7001" = 1 ∧
      (cluster.process 2).node.matchIndex.read "node2:7001" <
        (cluster.process 2).node.nextIndex.read "node2:7001" := by
  obtain ⟨moves, cluster, trace, checked⟩ := bootstrap.system.exists_trace (fun _ _ => True)
    bootstrap.initial (firstElection ++ firstWrite ++ successorElection ++ heartbeatsOvertaken)
    (fun moves cluster => System.Throughout RepliesInOrder [] moves ∧
      (cluster.process 2).node.state = .leader ∧
      "node2:7001" ∈ (cluster.process 2).node.peers ∧
      (cluster.process 2).node.matchIndex.read "node2:7001" = 1) (by decide +kernel)
  obtain ⟨ordered, leads, listed, matched⟩ := of_decide_eq_true checked
  exact ⟨moves, cluster, trace, ordered, matched, next_index_ahead trace ordered leads listed⟩

/-- The second rejection arrives last, and the leader falls back to the entry node 2 has
acknowledged. -/
theorem late_rejection_rewinds :
    ∃ moves cluster, bootstrap.system.Trace (fun _ _ => True) bootstrap.initial moves cluster ∧
      (cluster.process 2).node.state = .leader ∧
      "node2:7001" ∈ (cluster.process 2).node.peers ∧
      (cluster.process 2).node.nextIndex.read "node2:7001" ≤
        (cluster.process 2).node.matchIndex.read "node2:7001" := by
  obtain ⟨moves, cluster, trace, checked⟩ := bootstrap.system.exists_trace (fun _ _ => True)
    bootstrap.initial (firstElection ++ firstWrite ++ successorElection ++ heartbeatsOvertaken ++
      [.run (.resumeAppend 5)])
    (fun _ cluster => (cluster.process 2).node.state = .leader ∧
      "node2:7001" ∈ (cluster.process 2).node.peers ∧
      (cluster.process 2).node.nextIndex.read "node2:7001" ≤
        (cluster.process 2).node.matchIndex.read "node2:7001") (by decide +kernel)
  exact ⟨moves, cluster, trace, of_decide_eq_true checked⟩

end RaftGo
