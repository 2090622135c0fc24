import RaftGo.Cluster.ElectionSafety

/-! What backs an election. Every vote a pre-vote round has counted was granted earlier in
the run by the process at that address, to the probe of the round. The probe speaks of
the node as it was when the round started, and the goroutine that returns from the round
only looks at the state and the peer list again. -/

namespace RaftGo

open Raft KvStore Library

variable {ι : Type} [DecidableEq ι] {deployment : Deployment ι} {cluster next : Cluster ι}
  {moves : List (Move (Cluster ι) (Event ι))}

namespace Deployment

/-- What an action makes of the polls under way. -/
inductive Polled (deployment : Deployment ι) (cluster : Cluster ι) (action : Action ι) :
    List (Poll ι) → Prop where
  | same : Polled deployment cluster action cluster.polls
  | opened (i : ι) (args : RequestVoteArgs) :
      Polled deployment cluster action (cluster.polls ++ [.start i (cluster.process i) args])
  | served {index call : Nat} {target : ι} {poll : Poll ι}
      (serves : action = .serveVote index call target) (found : cluster.polls[index]? = some poll)
      (calling : poll.calls[call]? = some (deployment.addr target, .requested)) :
      Polled deployment cluster action (cluster.polls.set index (poll.setPhase call (.replied
        ((cluster.process target).node.handleRequestVote cluster.clock poll.args).2)))
  | probed {index call : Nat} {peer : String} {reply : RequestVoteReply} {poll : Poll ι}
      (found : cluster.polls[index]? = some poll)
      (calling : poll.calls[call]? = some (peer, .replied reply)) :
      Polled deployment cluster action (cluster.polls.set index
        ((poll.setPhase call (.resumed reply)).count reply.voteGranted))
  | voted (index : Nat) {poll : Poll ι} (real : poll.args.isPreVote = false) :
      Polled deployment cluster action (cluster.polls.set index poll)
  | finished {index : Nat} {poll : Poll ι} (found : cluster.polls[index]? = some poll) :
      Polled deployment cluster action (cluster.polls.set index { poll with finished := true })

theorem polls_feed {i : ι} {input : Input}
    (fed : deployment.feed cluster i input = some next) : next.polls = cluster.polls := by
  obtain ⟨after, _, rfl⟩ := feed_cases fed
  rfl

theorem polled_act {action : Action ι} (acted : deployment.act cluster action = some next) :
    Polled deployment cluster action next.polls := by
  have unchanged {i : ι} {input : Input} {fed : Cluster ι}
      (feeding : deployment.feed cluster i input = some fed) (kept : next.polls = fed.polls) :
      Polled deployment cluster action next.polls := by
    rw [kept, polls_feed feeding]
    exact .same
  cases action with
  | tick elapsed =>
    cases acted
    exact .same
  | internal i input =>
    simp only [act] at acted
    split at acted
    · exact unchanged acted rfl
    · cases acted
  | startPreVote i =>
    obtain ⟨fed, feeding, ⟨_, rfl⟩ | ⟨_, rfl⟩⟩ := startPreVote_cases acted
    · exact unchanged feeding rfl
    · rw [Cluster.addPoll, polls_feed feeding]
      exact .opened i _
  | startElection i =>
    obtain ⟨fed, feeding, rfl⟩ := startElection_cases acted
    rw [Cluster.addPoll, polls_feed feeding]
    exact .opened i _
  | serveVote index call target =>
    obtain ⟨poll, fed, found, calling, feeding, rfl⟩ := serveVote_cases acted
    rw [Cluster.setPoll, polls_feed feeding]
    exact .served rfl found calling
  | resumePreVote index call =>
    obtain ⟨poll, peer, reply, found, calling, _, rfl⟩ := resumePreVote_cases acted
    exact .probed found calling
  | becomeCandidate index =>
    obtain ⟨poll, fed, found, _, _, _, feeding, rfl⟩ := becomeCandidate_cases acted
    rw [Cluster.setPoll, polls_feed feeding]
    exact .finished found
  | resumeVote index call =>
    obtain ⟨poll, peer, reply, fed, found, _, real, _, feeding, rfl⟩ := resumeVote_cases acted
    rw [Cluster.setPoll, polls_feed feeding]
    exact .voted index real
  | serveAppend index target =>
    obtain ⟨rpc, fed, _, _, _, feeding, rfl⟩ := serveAppend_cases acted
    exact unchanged feeding rfl
  | resumeAppend index =>
    obtain ⟨rpc, reply, fed, _, _, _, feeding, rfl⟩ := resumeAppend_cases acted
    exact unchanged feeding rfl
  | serveInstall index target saved =>
    obtain ⟨rpc, fed, _, _, _, feeding, rfl⟩ := serveInstall_cases acted
    exact unchanged feeding rfl
  | resumeInstall index =>
    obtain ⟨rpc, reply, fed, _, _, _, feeding, rfl⟩ := resumeInstall_cases acted
    exact unchanged feeding rfl

/-- The move in which the process at an address grants a request. -/
def grants (deployment : Deployment ι) (args : RequestVoteArgs) (peer : String)
    (move : Move (Cluster ι) (Event ι)) : Bool :=
  match move.event with
  | .run (.serveVote index _ target) =>
    decide (deployment.addr target = peer) &&
      decide (move.before.polls[index]?.map Poll.args = some args) &&
      ((move.before.process target).node.handleRequestVote move.before.clock args).2.voteGranted
  | _ => false

/-- The request has been granted at an address. -/
def granted (deployment : Deployment ι) (moves : List (Move (Cluster ι) (Event ι)))
    (args : RequestVoteArgs) (peer : String) : Bool :=
  moves.any (deployment.grants args peer)

/-- A majority of the peer list, the node included, has granted the probe that the node
would send now: it carries the next term and the end of the log. -/
def Backed (deployment : Deployment ι) (moves : List (Move (Cluster ι) (Event ι)))
    (node : RaftNode) : Prop :=
  node.majority ≤ (node.peers.filter (deployment.granted moves node.preVoteArgs)).length + 1

instance decidableBacked (deployment : Deployment ι) (moves : List (Move (Cluster ι) (Event ι)))
    (node : RaftNode) : Decidable (deployment.Backed moves node) :=
  inferInstanceAs (Decidable (_ ≤ _))

omit [DecidableEq ι] in
theorem granted_snoc {args : RequestVoteArgs} {peer : String}
    (move : Move (Cluster ι) (Event ι)) (before : deployment.granted moves args peer = true) :
    deployment.granted (moves ++ [move]) args peer = true := by
  simp [granted, List.any_append, show moves.any (deployment.grants args peer) = true from before]

omit [DecidableEq ι] in
/-- A grant that is served now is the last move of the history. -/
theorem granted_now {index call : Nat} {target : ι} {poll : Poll ι}
    (found : cluster.polls[index]? = some poll)
    (vote : ((cluster.process target).node.handleRequestVote cluster.clock
      poll.args).2.voteGranted = true) :
    deployment.granted (moves ++ [⟨cluster, .run (.serveVote index call target), next⟩])
      poll.args (deployment.addr target) = true := by
  simp [granted, grants, found, vote]

end Deployment

namespace Poll

/-- The counter of a round is covered by its grants, and the grants by the history. -/
structure Sourced (deployment : Deployment ι) (moves : List (Move (Cluster ι) (Event ι)))
    (poll : Poll ι) : Prop where
  tally : poll.Tally
  granted : ∀ peer phase, (peer, phase) ∈ poll.calls → phase.granted = true →
    deployment.granted moves poll.args peer = true

omit [DecidableEq ι] in
theorem Sourced.snoc {poll : Poll ι} (sourced : poll.Sourced deployment moves)
    (move : Move (Cluster ι) (Event ι)) : poll.Sourced deployment (moves ++ [move]) :=
  ⟨sourced.tally, fun peer phase member vote =>
    Deployment.granted_snoc move (sourced.granted peer phase member vote)⟩

omit [DecidableEq ι] in
theorem Sourced.start (caller : ι) (process : Process) (args : RequestVoteArgs) :
    (Poll.start caller process args).Sourced deployment moves := by
  refine ⟨Tally.start caller process args, ?_⟩
  intro peer phase member vote
  obtain ⟨_, _, same⟩ := List.mem_map.mp member
  cases same
  cases vote

omit [DecidableEq ι] in
theorem granted_setPhase {poll : Poll ι} {call : Nat} {peer : String}
    {old new : Phase RequestVoteReply} (sourced : poll.Sourced deployment moves)
    (calling : poll.calls[call]? = some (peer, old))
    (own : new.granted = true → deployment.granted moves poll.args peer = true) :
    ∀ other phase, (other, phase) ∈ (poll.setPhase call new).calls → phase.granted = true →
      deployment.granted moves poll.args other = true := by
  intro other phase member vote
  rw [calls_setPhase calling] at member
  rcases List.mem_or_eq_of_mem_set member with kept | same
  · exact sourced.granted other phase kept vote
  · cases same
    exact own vote

omit [DecidableEq ι] in
theorem Sourced.resume {poll : Poll ι} {call : Nat} {peer : String} {reply : RequestVoteReply}
    (sourced : poll.Sourced deployment moves)
    (calling : poll.calls[call]? = some (peer, .replied reply)) :
    ((poll.setPhase call (.resumed reply)).count reply.voteGranted).Sourced deployment moves :=
  ⟨sourced.tally.resume calling id, granted_setPhase sourced calling fun vote =>
    sourced.granted peer _ (List.mem_of_getElem? calling) vote⟩

omit [DecidableEq ι] in
theorem Sourced.finish {poll : Poll ι} (sourced : poll.Sourced deployment moves) :
    ({ poll with finished := true } : Poll ι).Sourced deployment moves :=
  ⟨sourced.tally, sourced.granted⟩

end Poll

/-- The pre-vote rounds of a cluster, against the history. -/
def Sourced (deployment : Deployment ι) (moves : List (Move (Cluster ι) (Event ι)))
    (polls : List (Poll ι)) : Prop :=
  ∀ poll ∈ polls, poll.args.isPreVote = true → poll.Sourced deployment moves

omit [DecidableEq ι] in
theorem Sourced.snoc {polls : List (Poll ι)} (sourced : Sourced deployment moves polls)
    (move : Move (Cluster ι) (Event ι)) : Sourced deployment (moves ++ [move]) polls :=
  fun poll member probe => (sourced poll member probe).snoc move

omit [DecidableEq ι] in
theorem Sourced.set {polls : List (Poll ι)} (sourced : Sourced deployment moves polls)
    (index : Nat) {poll : Poll ι}
    (fresh : poll.args.isPreVote = true → poll.Sourced deployment moves) :
    Sourced deployment moves (polls.set index poll) := by
  intro other member probe
  rcases List.mem_or_eq_of_mem_set member with kept | rfl
  · exact sourced other kept probe
  · exact fresh probe

theorem Sourced.act {action : Action ι} (sourced : Sourced deployment moves cluster.polls)
    (acted : deployment.act cluster action = some next) :
    Sourced deployment (moves ++ [⟨cluster, .run action, next⟩]) next.polls := by
  have later := sourced.snoc ⟨cluster, .run action, next⟩
  have polled := Deployment.polled_act acted
  generalize next.polls = polls at polled
  cases polled with
  | same => exact later
  | opened i args =>
    intro poll member probe
    rcases List.mem_append.mp member with kept | new
    · exact later poll kept probe
    · cases List.mem_singleton.mp new
      exact .start i _ args
  | @served index call target poll serves found calling =>
    subst serves
    refine later.set index fun probe => ?_
    have own := later poll (List.mem_of_getElem? found) probe
    exact ⟨own.tally.serve calling, Poll.granted_setPhase own calling fun vote =>
      Deployment.granted_now found vote⟩
  | probed found calling =>
    exact later.set _ fun probe => (later _ (List.mem_of_getElem? found) probe).resume calling
  | voted index real => exact later.set index fun probe => absurd (real.symm.trans probe) nofun
  | finished found =>
    exact later.set _ fun probe => (later _ (List.mem_of_getElem? found) probe).finish

theorem Sourced.step {event : Event ι} (sourced : Sourced deployment moves cluster.polls)
    (stepped : deployment.step cluster event = some next) :
    Sourced deployment (moves ++ [⟨cluster, event, next⟩]) next.polls := by
  cases event with
  | run action => exact sourced.act stepped
  | interrupt action i writes =>
    obtain ⟨_, _, rest⟩ := Option.bind_eq_some_iff.mp stepped
    obtain ⟨disk, _, rebooted⟩ := Option.bind_eq_some_iff.mp rest
    cases rebooted
    exact sourced.snoc _
  | crash i =>
    cases stepped
    exact sourced.snoc _

omit [DecidableEq ι] in
/-- A round that has counted its majority has as many supporters in the history. -/
theorem Poll.Sourced.majority {poll : Poll ι} (sourced : poll.Sourced deployment moves)
    (won : poll.majority ≤ poll.votes) :
    poll.majority ≤
      ((poll.calls.map Prod.fst).filter (deployment.granted moves poll.args)).length + 1 := by
  have counted : poll.votes ≤ poll.calls.countP (·.2.tallied) + 1 := sourced.tally
  have covered : poll.calls.countP (·.2.tallied) ≤
      poll.calls.countP (fun call => deployment.granted moves poll.args call.1) := by
    refine List.countP_mono_left fun call member tallied => ?_
    exact sourced.granted call.1 call.2 member (Phase.granted_of_tallied tallied)
  have listed : ((poll.calls.map Prod.fst).filter (deployment.granted moves poll.args)).length =
      poll.calls.countP (fun call => deployment.granted moves poll.args call.1) := by
    rw [← List.countP_eq_length_filter, List.countP_map]
    rfl
  omega

/-- A goroutine of `Run` comes to stand for election after its round. If the term, the end
of the log and the peer list are still those the round was started with, a majority of the
peers has granted the probe that the node would send in this state. -/
theorem term_bump_backed {allowed : Cluster ι → Event ι → Prop}
    (trace : deployment.system.Trace allowed deployment.initial moves cluster)
    {index : Nat} {poll : Poll ι} (found : cluster.polls[index]? = some poll)
    (stood : deployment.system.step cluster (.run (.becomeCandidate index)) = some next)
    (current : poll.args = (cluster.process poll.caller).node.preVoteArgs)
    (listed : poll.calls.map Prod.fst = (cluster.process poll.caller).node.peers) :
    deployment.Backed moves (cluster.process poll.caller).node := by
  have sourced : Sourced deployment moves cluster.polls :=
    trace.record (fun moves cluster => Sourced deployment moves cluster.polls) nofun
      fun _ _ _ _ sourced _ stepped => sourced.step stepped
  obtain ⟨won, probe⟩ : poll.majority ≤ poll.votes ∧ poll.args.isPreVote = true := by
    obtain ⟨_, _, same, probe, _, won, _, _⟩ := Deployment.becomeCandidate_cases stood
    cases found.symm.trans same
    exact ⟨won, probe⟩
  have size : poll.majority = (cluster.process poll.caller).node.majority := by
    rw [Poll.majority, RaftNode.majority, ← listed, List.length_map]
  unfold Deployment.Backed
  rw [← size, ← listed, ← current]
  exact (sourced poll (List.mem_of_getElem? found) probe).majority won

/-- Node 1 stands for election with the consent of node 3. -/
theorem term_bump_backed_first :
    ∃ moves cluster next, bootstrap.system.Trace (fun _ _ => True) bootstrap.initial moves cluster ∧
      bootstrap.system.step cluster (.run (.becomeCandidate 0)) = some next ∧
      (next.process 0).node.currentTerm = (cluster.process 0).node.currentTerm + 1 ∧
      bootstrap.Backed moves (cluster.process 0).node := by
  obtain ⟨moves, cluster, trace, checked⟩ := bootstrap.system.exists_trace (fun _ _ => True)
    bootstrap.initial (firstElection.take 5)
    (fun _ cluster => cluster.polls[0]?.any fun (poll : Poll (Fin 3)) =>
      decide (poll.caller = 0 ∧ poll.args = (cluster.process 0).node.preVoteArgs ∧
        poll.calls.map Prod.fst = (cluster.process 0).node.peers) &&
      (bootstrap.system.step cluster (.run (.becomeCandidate 0))).any fun (next : Cluster (Fin 3)) =>
        (next.process 0).node.currentTerm = (cluster.process 0).node.currentTerm + 1)
    (by decide +kernel)
  simp only [Option.any_eq_true, Bool.and_eq_true, decide_eq_true_eq] at checked
  obtain ⟨poll, found, ⟨caller, current, listed⟩, next, stood, bumped⟩ := checked
  have backed := term_bump_backed trace found stood (by rw [caller, current])
    (by rw [caller, listed])
  rw [caller] at backed
  exact ⟨moves, cluster, next, trace, stood, bumped, backed⟩

/-- The round of node 2 has the consent of node 3 when node 1 is elected and node 2 hears
from the new leader. -/
def overtakenRound : List (Event (Fin 3)) := [
  .run (.tick (250 * millisecond)),
  .run (.internal node2 .electionTimeout),
  .run (.startPreVote node2),
  .run (.serveVote 0 1 node3),
  .run (.internal node1 .electionTimeout),
  .run (.startPreVote node1),
  .run (.serveVote 1 1 node3),
  .run (.resumePreVote 1 1),
  .run (.becomeCandidate 1),
  .run (.startElection node1),
  .run (.serveVote 2 1 node3),
  .run (.resumeVote 2 1),
  .run (.internal node1 .heartbeat),
  .run (.serveAppend 0 node2),
  .run (.resumePreVote 0 1)]

/-- Node 2 follows the leader of term 1, which it has just heard from. Its old round still
moves it to term 2, and nobody has been asked about that term. -/
theorem term_bump_stale :
    ∃ moves cluster next, bootstrap.system.Trace (fun _ _ => True) bootstrap.initial moves cluster ∧
      (cluster.process 0).node.state = .leader ∧
      (cluster.process 1).node.leaderID = (cluster.process 0).node.id ∧
      (cluster.process 1).node.lastLeaderContact = some cluster.clock ∧
      bootstrap.system.step cluster (.run (.becomeCandidate 0)) = some next ∧
      (next.process 1).node.currentTerm = (cluster.process 1).node.currentTerm + 1 ∧
      (next.process 1).node.state = .candidate ∧
      ¬bootstrap.Backed moves (cluster.process 1).node := by
  obtain ⟨moves, cluster, trace, checked⟩ := bootstrap.system.exists_trace (fun _ _ => True)
    bootstrap.initial overtakenRound
    (fun moves cluster => decide ((cluster.process 0).node.state = .leader ∧
        (cluster.process 1).node.leaderID = (cluster.process 0).node.id ∧
        (cluster.process 1).node.lastLeaderContact = some cluster.clock ∧
        ¬bootstrap.Backed moves (cluster.process 1).node) &&
      (bootstrap.system.step cluster (.run (.becomeCandidate 0))).any fun (next : Cluster (Fin 3)) =>
        decide ((next.process 1).node.currentTerm = (cluster.process 1).node.currentTerm + 1 ∧
          (next.process 1).node.state = .candidate))
    (by decide +kernel)
  simp only [Option.any_eq_true, Bool.and_eq_true, decide_eq_true_eq] at checked
  obtain ⟨⟨leads, follows, heard, unbacked⟩, next, stood, bumped, candidate⟩ := checked
  exact ⟨moves, cluster, next, trace, leads, follows, heard, stood, bumped, candidate, unbacked⟩

end RaftGo
