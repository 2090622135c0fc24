import RaftGo.Cluster.Answers

/-! How a node without snapshots moves the replicated log of `Library.Consensus`:
what it does when it steps down, stands for election, grants a vote, wins, writes
an entry, accepts entries, or learns that entries are committed. -/

namespace RaftGo

open Raft KvStore Library Library.Consensus

variable {ι : Type} [Fintype ι] (deployment : Deployment ι)

def consensusShape (ghost : Consensus.State ι LogEntry) : Shape ι where
  process i process := Replica deployment ghost i process.elections process.node ∧
    Answers deployment.codec ghost process
  poll poll := poll.args.isPreVote = false → Canvass deployment ghost poll
  append rpc := Shipment deployment ghost rpc
  install rpc := rpc.args.lastIncludedIndex = 0

variable [DecidableEq ι]

def consensusContract : Contract ι (Consensus.State ι LogEntry) where
  shape := consensusShape deployment
  moves := Consensus.Step
  sound := Consensus.Sound
  sound_moves sound moved := sound.step moved
  process_moves sound moved other known :=
    ⟨known.1.spared sound moved (moved.spares other), known.2.moves sound moved⟩
  poll_moves _ moved canvass real := (canvass real).moves moved
  append_moves sound moved shipment := shipment.moves sound moved
  install_moves _ _ covered := covered

variable {deployment} {ghost : Consensus.State ι LogEntry} {i : ι} {elections : Nat}
  {node after : RaftNode}

namespace Contract.Path

variable {next : Consensus.State ι LogEntry}

theorem evolves (path : (consensusContract deployment).Path i ghost next) : Evolves ghost next := by
  induction path with
  | refl => exact .refl _
  | tail before moved ih => exact ih.trans moved.evolves

theorem decided (path : (consensusContract deployment).Path i ghost next)
    (sound : Consensus.Sound ghost) {term length : Nat} (decided : Decided ghost term length) :
    Decided next term length :=
  path.keeps _ sound (fun sound moved decided => sound.decided_step moved decided) decided

theorem settled (path : (consensusContract deployment).Path i ghost next)
    (sound : Consensus.Sound ghost) {j : ι} {length : Nat} (settled : Settled ghost j length) :
    Settled next j length :=
  path.keeps _ sound (fun sound moved settled => sound.settled_step moved settled) settled

theorem chosen (path : (consensusContract deployment).Path i ghost next)
    (sound : Consensus.Sound ghost) {position : Nat} {entry : LogEntry}
    (chosen : Chosen ghost position entry) : Chosen next position entry :=
  path.keeps _ sound (fun sound moved chosen => sound.chosen_step moved chosen) chosen

end Contract.Path

namespace Replica

omit [DecidableEq ι] in
theorem retains (replica : Replica deployment ghost i elections node)
    (retains : node.Retains after) : Replica deployment ghost i elections after where
  voting := replica.voting.keeps retains.keepsVote
  log := retains.log.trans replica.log
  indexed := replica.indexed
  stored := by
    have stored := replica.stored
    unfold RaftNode.Stored at stored ⊢
    rwa [retains.disk, retains.log]
  snapshot := by rw [retains.disk]; exact replica.snapshot
  settled := by rw [retains.commitIndex]; exact replica.settled
  stands := by rw [retains.state, retains.currentTerm]; exact replica.stands
  progress := by
    rw [retains.state, retains.currentTerm, retains.matchIndex]
    exact replica.progress
  own := by rw [retains.state, retains.currentTerm]; exact replica.own
  spawned := by rw [retains.state, retains.currentTerm]; exact replica.spawned

theorem stepDown (replica : Replica deployment ghost i elections node)
    (sound : Consensus.Sound ghost) (term : Nat) :
    (consensusContract deployment).Reaches ghost i fun next =>
      Consensus.Sound next ∧ Replica deployment next i elections (node.stepDown term) := by
  rcases node.stepDown_cases term with ⟨_, same⟩ | ⟨later, stepped⟩
  · exact .here ⟨sound, by rw [same]; exact replica⟩
  · have later : ghost.term i < term := by rwa [replica.voting.term]
    have bumped : Consensus.Step ghost i _ := .bump term later
    rw [stepped]
    refine .move bumped (.here ⟨sound.step bumped, ?_⟩)
    exact {
      voting := .becomeFollower (sound.ballots.future term i later)
      log := replica.log
      indexed := replica.indexed
      stored := RaftNode.stored_persist _
      snapshot := replica.snapshot
      settled := sound.settled_step bumped replica.settled
      stands := nofun
      progress := nofun
      own := nofun
      spawned := fun _ => .inr (.inr ⟨sound.slateFuture term i later, by
        simp [RaftNode.becomeFollower, RaftNode.persist, RaftNode.write]⟩) }

omit [DecidableEq ι] in
theorem concede (replica : Replica deployment ghost i elections node)
    (led : ghost.Led node.currentTerm) :
    Replica deployment ghost i elections { node with state := .follower } where
  voting := replica.voting.keeps (.frame rfl rfl rfl (.inr rfl))
  log := replica.log
  indexed := replica.indexed
  stored := replica.stored
  snapshot := replica.snapshot
  settled := replica.settled
  stands := nofun
  progress := nofun
  own := nofun
  spawned _ := .inr (.inl led)

theorem observeLeader (replica : Replica deployment ghost i elections node)
    (sound : Consensus.Sound ghost) {term : Nat} (led : ghost.Led term) :
    (consensusContract deployment).Reaches ghost i fun next =>
      Consensus.Sound next ∧ Replica deployment next i elections (node.observeLeader term) := by
  rcases node.observeLeader_cases term with same | ⟨current, _, conceded⟩
  · rw [same]
    exact replica.stepDown sound term
  · rw [conceded]
    exact .here ⟨sound, replica.concede (current ▸ led)⟩

theorem becomeCandidate (replica : Replica deployment ghost i elections node)
    (sound : Consensus.Sound ghost) (own : node.id = (deployment.config i).id) :
    (consensusContract deployment).Reaches ghost i fun next =>
      Replica deployment next i (elections + 1) node.becomeCandidate := by
  have later : ghost.term i < node.currentTerm + 1 := by
    rw [replica.voting.term]
    exact Nat.lt_succ_self _
  have unslated := sound.slateFuture _ _ later
  have stood : Consensus.Step ghost i _ :=
    .stand (node.currentTerm + 1) later (sound.ballots.future _ _ later) unslated
  refine .move stood (.here ?_)
  exact {
    voting := .becomeCandidate own
    log := replica.log
    indexed := replica.indexed
    stored := RaftNode.stored_persist _
    snapshot := replica.snapshot
    settled := sound.settled_step stood replica.settled
    stands := fun _ => by
      refine ⟨by simp [RaftNode.becomeCandidate, RaftNode.persist, RaftNode.write], ?_⟩
      intro leads
      obtain ⟨standing, _, slated, _⟩ := sound.elected _ _ leads
      cases unslated.symm.trans slated
    progress := nofun
    own := nofun
    spawned := fun _ => .inl rfl }

omit [DecidableEq ι] in
/-- The comparison in `HandleRequestVote` is that of the abstract voter. -/
theorem upToDate (replica : Replica deployment ghost i elections node) {args : RequestVoteArgs}
    {standing : List LogEntry} (length : args.lastLogIndex = standing.length)
    (last : args.lastLogTerm = lastStamp standing)
    (willing : node.candidateUpToDate args = true) : UpToDate standing (ghost.log i) := by
  simp only [RaftNode.candidateUpToDate, replica.log, Log.lastTerm_whole, Log.lastIndex_whole,
    length, last, Bool.or_eq_true, Bool.and_eq_true, decide_eq_true_eq, beq_iff_eq] at willing
  exact willing

theorem endorse (replica : Replica deployment ghost i elections node)
    (sound : Consensus.Sound ghost) {candidate : ι} {standing : List LogEntry}
    (cast : ghost.ballot (ghost.term i) i = some candidate)
    (vacant : ghost.leader (ghost.term i) = none)
    (slated : ghost.slate (ghost.term i) candidate = some standing)
    (compared : UpToDate standing (ghost.log i)) :
    (consensusContract deployment).Reaches ghost i fun next =>
      Consensus.Sound next ∧ Replica deployment next i elections node ∧ Evolves ghost next ∧
        next.toState = ghost.toState ∧
        next.endorsed (ghost.term i) candidate i (ghost.log i) := by
  have endorsed : Consensus.Step ghost i _ := .endorse candidate standing cast vacant slated compared
  refine .move endorsed (.here ⟨sound.step endorsed, ?_, endorsed.evolves, rfl,
    .inr ⟨rfl, rfl, rfl, rfl⟩⟩)
  exact replica.spared sound endorsed ⟨rfl, fun _ => rfl, fun _ => rfl, rfl, fun _ => id⟩

theorem vote (replica : Replica deployment ghost i elections node)
    (sound : Consensus.Sound ghost) {candidate : ι}
    (unspent : ∀ earlier, ghost.ballot (ghost.term i) i = some earlier → earlier = candidate) :
    (consensusContract deployment).Reaches ghost i fun next =>
      Consensus.Sound next ∧ Evolves ghost next ∧
        Replica deployment next i elections (node.grantVote (deployment.config candidate).id) ∧
        next.ballot (next.term i) i = some candidate ∧ next.term i = ghost.term i ∧
        next.log i = ghost.log i := by
  have voted : Consensus.Step ghost i _ := .vote candidate unspent
  refine .move voted (.here ⟨sound.step voted, voted.evolves, ?_, by simp, rfl, rfl⟩)
  exact {
    voting := replica.voting.grantVote unspent
    log := replica.log
    indexed := replica.indexed
    stored := rfl
    snapshot := replica.snapshot
    settled := sound.settled_step voted replica.settled
    stands := replica.stands
    progress := replica.progress
    own := replica.own
    spawned := fun waiting => (replica.spawned waiting).imp_right (·.moves voted) }

/-- A vote is granted to the candidate whose identifier the request carries, and
endorses it while the term is open. -/
theorem grantVote (mesh : deployment.FullMesh) (replica : Replica deployment ghost i elections node)
    (sound : Consensus.Sound ghost) {poll : Poll ι} (canvass : Canvass deployment ghost poll)
    (real : poll.args.isPreVote = false) (current : node.currentTerm = poll.args.term)
    (free : node.votedFor = "" ∨ node.votedFor = (deployment.config poll.caller).id)
    (willing : node.candidateUpToDate poll.args = true) :
    (consensusContract deployment).Reaches ghost i fun next =>
      Replica deployment next i elections
        (node.grantVote (deployment.config poll.caller).id) ∧
      next.ballot poll.args.term i = some poll.caller ∧
      ((∃ log, next.endorsed poll.args.term poll.caller i log) ∨
        Moot next poll.args.term poll.caller) := by
  have opened : ghost.term i = poll.args.term := replica.voting.term.trans current
  obtain ⟨middle, path, sound', evolves, voter, cast, term, log⟩ :=
    replica.vote sound (replica.voting.unspent mesh free)
  have later : Canvass deployment middle poll :=
    path.poll sound (fun _ => canvass) real
  rw [opened] at term
  suffices reached : (consensusContract deployment).Reaches middle i _ from
    .bind ⟨middle, path, rfl⟩ fun _ same => same ▸ reached
  by_cases moot : Moot middle poll.args.term poll.caller
  · exact .here ⟨voter, term ▸ cast, .inr moot⟩
  · rcases later.standing with ⟨standing, slated, length, last⟩ | settled
    · have vacant : middle.leader (middle.term i) = none := by
        rw [term]
        exact Option.eq_none_iff_forall_ne_some.mpr fun leader leads => moot (.inl ⟨leader, leads⟩)
      have compared : UpToDate standing (middle.log i) :=
        log ▸ replica.upToDate length last willing
      refine (voter.endorse sound' cast vacant (term ▸ slated) compared).weaken ?_
      rintro next ⟨_, endorser, _, ballots, endorsed⟩
      rw [term] at endorsed cast
      exact ⟨endorser, by rw [ballots]; exact cast, .inl ⟨_, endorsed⟩⟩
    · exact absurd settled moot

theorem elect (mesh : deployment.FullMesh) (replica : Replica deployment ghost i elections node)
    (sound : Consensus.Sound ghost) (peers : node.peers = (deployment.config i).peers)
    (stands : node.state = .candidate) {voters : Finset ι} (majority : IsMajority voters)
    (vacant : ghost.leader node.currentTerm = none)
    (support : ∀ voter ∈ voters, ∃ log, ghost.endorsed node.currentTerm i voter log) (now : Nat) :
    (consensusContract deployment).Reaches ghost i fun next =>
      Replica deployment next i elections (node.becomeLeader now) := by
  have term := replica.voting.term
  have slated := (replica.stands stands).1
  rw [← term] at vacant slated support
  have elected : Consensus.Step ghost i _ := .elect voters vacant slated majority support
  refine .move elected (.here ?_)
  exact {
    voting := by
      have voting := replica.voting.becomeLeader now
      rwa [← term] at voting
    log := replica.log
    indexed := replica.indexed
    stored := replica.stored
    snapshot := replica.snapshot
    settled := sound.settled_step elected replica.settled
    stands := nofun
    progress := fun _ j other => by
      have known : deployment.addr j ∈ node.peers := by
        rw [peers]
        exact (mesh.mem_peers i _).mpr ⟨j, other, rfl⟩
      rw [RaftNode.matchIndex_becomeLeader known]
      exact Nat.zero_le _
    own := fun _ => by simp [RaftNode.becomeLeader, ← term]
    spawned := fun _ => .inr (.inl ⟨i, by simp [RaftNode.becomeLeader, ← term]⟩) }

/-- A candidate that completes its majority wins: no other node can have won the
term, so every vote counted was an endorsement. -/
theorem becomeLeader (mesh : deployment.FullMesh)
    (replica : Replica deployment ghost i elections node) (sound : Consensus.Sound ghost)
    (peers : node.peers = (deployment.config i).peers) (stands : node.state = .candidate)
    {voters : Finset ι} (majority : IsMajority voters)
    (votes : ∀ voter ∈ voters, ghost.ballot node.currentTerm voter = some i)
    (support : ∀ voter ∈ voters, voter = i ∨
      (∃ log, ghost.endorsed node.currentTerm i voter log) ∨ Moot ghost node.currentTerm i)
    (now : Nat) :
    (consensusContract deployment).Reaches ghost i fun next =>
      Replica deployment next i elections (node.becomeLeader now) := by
  obtain ⟨slated, unelected⟩ := replica.stands stands
  have term := replica.voting.term
  have cast := replica.voting.candidate stands
  have vacant : ghost.leader node.currentTerm = none := by
    refine Option.eq_none_iff_forall_ne_some.mpr ?_
    intro other leads
    have same := sound.ballots.winner_unique leads majority votes
    exact unelected (same ▸ leads)
  refine (replica.endorse sound (term ▸ cast) (term ▸ vacant) (term ▸ slated) (.refl _)).bind ?_
  rintro next ⟨sound', replica', evolves, ballots, endorsed⟩
  refine replica'.elect mesh sound' peers stands majority (by rw [ballots]; exact vacant) ?_ now
  intro voter member
  rcases support voter member with rfl | ⟨log, support⟩ | ⟨leader, leads⟩ | ⟨unslated, _⟩
  · exact ⟨_, term ▸ endorsed⟩
  · exact ⟨log, evolves.endorsed support⟩
  · cases vacant.symm.trans leads
  · cases unslated.symm.trans slated

end Replica

end RaftGo
