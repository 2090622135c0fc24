import RaftGo.Cluster.Mesh
import RaftGo.Cluster.Plain
import RaftGo.Cluster.Tally
import RaftGo.Library.Ballot
import RaftGo.Raft.Terms

/-! Elections of a full-mesh cluster refine the ballots of `Library.Ballot`, as
long as no leader steps down for want of a quorum. Logs, snapshots and the state
machine play no part here. -/

namespace RaftGo

open Raft KvStore Library

/-- Membership is fixed, and a leader whose heartbeat ticker fires has heard from
a majority. -/
def LeadersHearQuorum (now : Nat) (process : Process) (input : Input) : Prop :=
  input.keepsMembership = true ∧
    (input = .heartbeat → process.node.state = .leader →
      process.node.majority ≤ process.node.heard now)

instance (now : Nat) (process : Process) (input : Input) :
    Decidable (LeadersHearQuorum now process input) :=
  inferInstanceAs (Decidable (_ ∧ _))

/-- No internal input touches the vote of such a process. -/
theorem KvStore.Process.NodeEffect.keepsVote {process : Process} {codec : Codec} {now : Nat}
    {input : Input} {node : RaftNode} (effect : process.NodeEffect codec now input node)
    (permitted : LeadersHearQuorum now process input) : process.node.KeepsVote node := by
  cases effect with
  | idle idles silent =>
    obtain ⟨_, _, _, _, rfl⟩ := idles
    exact .frame rfl rfl rfl (.inl rfl)
  | heartbeat => exact RaftNode.keepsVote_heartbeatTick (permitted.2 rfl)
  | submit op => exact RaftNode.keepsVote_submit _
  | takeSnapshot data saved holding => exact RaftNode.keepsVote_takeSnapshot data saved

variable {ι : Type} (deployment : Deployment ι)

/-- How a vote is written in `votedFor`. -/
def Deployment.voteText (vote : Option ι) : String :=
  match vote with
  | none => ""
  | some i => (deployment.config i).id

/-- A node agrees with its row of the ballot history. -/
structure Voting (ghost : Ballot.State ι) (i : ι) (node : RaftNode) : Prop where
  term : ghost.term i = node.currentTerm
  vote : node.votedFor = deployment.voteText (ghost.ballot node.currentTerm i)
  synced : node.Synced
  candidate : node.state = .candidate → ghost.ballot node.currentTerm i = some i
  leader : node.state = .leader → ghost.leader node.currentTerm = some i

/-- Granted replies are votes of the history, and they are counted once. -/
structure Honest (ghost : Ballot.State ι) (poll : Poll ι) : Prop where
  cast : ∀ peer phase, (peer, phase) ∈ poll.calls → phase.granted = true →
    ∀ j, deployment.addr j = peer → ghost.ballot poll.args.term j = some poll.caller
  tally : poll.Tally

def ballotShape (ghost : Ballot.State ι) : Shape ι where
  process i process := Voting deployment ghost i process.node
  poll poll := poll.args.isPreVote = false → Honest deployment ghost poll
  append _ := True
  install _ := True

section Moves

variable [Fintype ι] [DecidableEq ι] {deployment}

omit [Fintype ι] [DecidableEq ι] in
theorem Voting.others {ghost next : Ballot.State ι} {j : ι} {node : RaftNode}
    (voting : Voting deployment ghost j node) (term : next.term j = ghost.term j)
    (ballot : ∀ term, next.ballot term j = ghost.ballot term j)
    (leader : ∀ {term leader}, ghost.leader term = some leader →
      next.leader term = some leader) : Voting deployment next j node :=
  ⟨term.trans voting.term, by rw [ballot]; exact voting.vote, voting.synced,
    fun candidate => (ballot _).trans (voting.candidate candidate),
    fun leads => leader (voting.leader leads)⟩

theorem Voting.moves {ghost next : Ballot.State ι} {i j : ι} {node : RaftNode}
    (voting : Voting deployment ghost j node) (moved : Ballot.Step ghost i next) (other : j ≠ i) :
    Voting deployment next j node :=
  voting.others (moved.other other).1 (moved.other other).2 moved.leader_stable

theorem Honest.moves {ghost next : Ballot.State ι} {i : ι} {poll : Poll ι}
    (honest : Honest deployment ghost poll) (moved : Ballot.Step ghost i next) :
    Honest deployment next poll :=
  ⟨fun peer phase member granted j routed =>
    moved.ballot_stable (honest.cast peer phase member granted j routed), honest.tally⟩

variable (deployment)

def ballotContract : Contract ι (Ballot.State ι) where
  shape := ballotShape deployment
  moves := Ballot.Step
  sound := Ballot.Sound
  sound_moves sound moved := sound.step moved
  process_moves _ moved other voting := voting.moves moved other
  poll_moves _ moved honest real := (honest real).moves moved
  append_moves _ _ _ := trivial
  install_moves _ _ _ := trivial

end Moves

section Handlers

variable [Fintype ι] [DecidableEq ι] {deployment} {ghost : Ballot.State ι} {i : ι}
  {node after : RaftNode}

omit [Fintype ι] [DecidableEq ι] in
theorem Voting.keeps (voting : Voting deployment ghost i node) (keeps : node.KeepsVote after) :
    Voting deployment ghost i after where
  term := voting.term.trans keeps.currentTerm.symm
  vote := by rw [keeps.votedFor, keeps.currentTerm]; exact voting.vote
  synced := keeps.synced voting.synced
  candidate stands := by
    rw [keeps.currentTerm]
    rcases keeps.state with same | follower
    · exact voting.candidate (same ▸ stands)
    · simp [follower] at stands
  leader leads := by
    rw [keeps.currentTerm]
    rcases keeps.state with same | follower
    · exact voting.leader (same ▸ leads)
    · simp [follower] at leads

omit [Fintype ι] in
theorem Voting.becomeFollower {term : Nat} (unvoted : ghost.ballot term i = none) :
    Voting deployment { ghost with term := Function.update ghost.term i term } i
      (node.becomeFollower term) where
  term := by simp [RaftNode.becomeFollower, RaftNode.persist, RaftNode.write]
  vote := by
    simp [RaftNode.becomeFollower, RaftNode.persist, RaftNode.write, unvoted, Deployment.voteText]
  synced := RaftNode.synced_persist _
  candidate := by simp [RaftNode.becomeFollower, RaftNode.persist, RaftNode.write]
  leader := by simp [RaftNode.becomeFollower, RaftNode.persist, RaftNode.write]

omit [Fintype ι] in
theorem Voting.becomeCandidate (own : node.id = (deployment.config i).id) :
    Voting deployment { ghost with
      term := Function.update ghost.term i (node.currentTerm + 1)
      ballot := Ballot.put ghost.ballot (node.currentTerm + 1) i (some i) } i
      node.becomeCandidate where
  term := by simp [RaftNode.becomeCandidate, RaftNode.persist, RaftNode.write]
  vote := by
    simp [RaftNode.becomeCandidate, RaftNode.persist, RaftNode.write, Deployment.voteText, own]
  synced := RaftNode.synced_persist _
  candidate := by simp [RaftNode.becomeCandidate, RaftNode.persist, RaftNode.write]
  leader := by simp [RaftNode.becomeCandidate, RaftNode.persist, RaftNode.write]

omit [Fintype ι] [DecidableEq ι] in
/-- A vote that is free, or already given to that candidate, can be given to it. -/
theorem Voting.unspent (mesh : deployment.FullMesh) (voting : Voting deployment ghost i node)
    {j : ι} (free : node.votedFor = "" ∨ node.votedFor = (deployment.config j).id) :
    ∀ earlier, ghost.ballot (ghost.term i) i = some earlier → earlier = j := by
  intro earlier cast
  have written := voting.vote
  rw [← voting.term, cast] at written
  rcases free with empty | same
  · exact absurd (written.symm.trans empty) (mesh.id_nonempty earlier)
  · exact mesh.id_injective earlier j (written.symm.trans same)

omit [Fintype ι] in
theorem Voting.grantVote (voting : Voting deployment ghost i node) {j : ι}
    (unspent : ∀ earlier, ghost.ballot (ghost.term i) i = some earlier → earlier = j) :
    Voting deployment { ghost with
      ballot := Ballot.put ghost.ballot (ghost.term i) i (some j) } i
      (node.grantVote (deployment.config j).id) where
  term := voting.term
  vote := by
    simp [RaftNode.grantVote, RaftNode.persist, RaftNode.write, RaftNode.notifyHeartbeat,
      ← voting.term, Deployment.voteText]
  synced := ⟨rfl, rfl⟩
  candidate := by
    intro stands
    have cast : ghost.ballot (ghost.term i) i = some i := by
      rw [voting.term]
      exact voting.candidate stands
    have same := unspent i cast
    subst same
    simp [RaftNode.grantVote, RaftNode.persist, RaftNode.write, RaftNode.notifyHeartbeat,
      ← voting.term]
  leader := voting.leader

omit [Fintype ι] [DecidableEq ι] in
theorem Voting.becomeLeader (voting : Voting deployment ghost i node) (now : Nat) :
    Voting deployment { ghost with
      leader := Function.update ghost.leader node.currentTerm (some i) } i
      (node.becomeLeader now) where
  term := voting.term
  vote := voting.vote
  synced := voting.synced
  candidate := by simp [RaftNode.becomeLeader]
  leader := by simp [RaftNode.becomeLeader]

theorem Voting.stepDown (voting : Voting deployment ghost i node) (sound : Ballot.Sound ghost)
    (term : Nat) : (ballotContract deployment).Reaches ghost i fun next =>
      Ballot.Sound next ∧ Voting deployment next i (node.stepDown term) := by
  rcases node.stepDown_cases term with ⟨_, same⟩ | ⟨later, stepped⟩
  · exact .here ⟨sound, by rw [same]; exact voting⟩
  · have later : ghost.term i < term := by rwa [voting.term]
    have bumped : Ballot.Step ghost i _ := .bump term later
    rw [stepped]
    exact .move bumped (.here ⟨sound.step bumped, .becomeFollower (sound.future term i later)⟩)

theorem Voting.advances (voting : Voting deployment ghost i node) (sound : Ballot.Sound ghost)
    (advances : node.Advances after) : (ballotContract deployment).Reaches ghost i fun next =>
      Voting deployment next i after := by
  obtain ⟨term, keeps⟩ := advances
  exact (voting.stepDown sound term).weaken fun _ reached => reached.2.keeps keeps

theorem Voting.stand (voting : Voting deployment ghost i node) (sound : Ballot.Sound ghost)
    (own : node.id = (deployment.config i).id) :
    (ballotContract deployment).Reaches ghost i fun next =>
      Voting deployment next i node.becomeCandidate := by
  have later : ghost.term i < node.currentTerm + 1 := by
    rw [voting.term]
    exact Nat.lt_succ_self _
  exact .move (.stand (node.currentTerm + 1) later (sound.future _ _ later))
    (.here (.becomeCandidate own))

theorem Voting.grant (mesh : deployment.FullMesh) (voting : Voting deployment ghost i node)
    {j : ι} (free : node.votedFor = "" ∨ node.votedFor = (deployment.config j).id) :
    (ballotContract deployment).Reaches ghost i fun next =>
      Voting deployment next i (node.grantVote (deployment.config j).id) ∧
        next.ballot node.currentTerm i = some j := by
  have unspent := voting.unspent mesh free
  exact .move (.vote j unspent) (.here ⟨voting.grantVote unspent, by simp [← voting.term]⟩)

/-- A candidate with the votes of a majority leads its term. -/
theorem Voting.win (voting : Voting deployment ghost i node) (sound : Ballot.Sound ghost)
    {voters : Finset ι} (majority : IsMajority voters)
    (votes : ∀ voter ∈ voters, ghost.ballot node.currentTerm voter = some i) (now : Nat) :
    (ballotContract deployment).Reaches ghost i fun next =>
      Voting deployment next i (node.becomeLeader now) := by
  have vacant : ∀ other, ghost.leader node.currentTerm = some other → other = i :=
    fun other leads => sound.winner_unique leads majority votes
  exact .move (.elect node.currentTerm voters vacant majority votes) (.here (voting.becomeLeader now))

end Handlers

section Kept

variable [Fintype ι] [DecidableEq ι] {deployment}

omit [Fintype ι] [DecidableEq ι] in
theorem ballot_sends (ghost : Ballot.State ι) (i : ι) (boot : Nat) (out : Outgoing) :
    (ballotShape deployment ghost).Sends i boot out := by
  cases out <;> trivial

omit [Fintype ι] [DecidableEq ι] in
/-- Recording a reply keeps a poll honest if a granted reply is a vote cast. -/
theorem Honest.reply {ghost : Ballot.State ι} {poll : Poll ι} {call : Nat} {peer : String}
    {before phase : Phase RequestVoteReply} (honest : Honest deployment ghost poll)
    (found : poll.calls[call]? = some (peer, before))
    (cast : phase.granted = true → ∀ j, deployment.addr j = peer →
      ghost.ballot poll.args.term j = some poll.caller) :
    ∀ other status, (other, status) ∈ (poll.setPhase call phase).calls → status.granted = true →
      ∀ j, deployment.addr j = other → ghost.ballot poll.args.term j = some poll.caller := by
  intro other status member granted j routed
  rw [Poll.calls_setPhase found] at member
  rcases List.mem_or_eq_of_mem_set member with old | new
  · exact honest.cast other status old granted j routed
  · cases new
    exact cast granted j routed

/-- The supporters of a poll that completes its majority, with the caller. -/
theorem Honest.majority {ghost : Ballot.State ι} {poll : Poll ι} {call : Nat} {peer : String}
    {reply : RequestVoteReply} (mesh : deployment.FullMesh)
    (honest : Honest deployment ghost poll)
    (listed : poll.calls.map Prod.fst = (deployment.config poll.caller).peers)
    (found : poll.calls[call]? = some (peer, .replied reply)) (vote : reply.voteGranted = true)
    (complete : poll.majority ≤ poll.votes + 1)
    (self : ghost.ballot poll.args.term poll.caller = some poll.caller) :
    IsMajority (deployment.quorum poll.caller poll.supporters) ∧
      ∀ voter ∈ deployment.quorum poll.caller poll.supporters,
        ghost.ballot poll.args.term voter = some poll.caller := by
  have sublist : poll.supporters.Sublist (deployment.config poll.caller).peers :=
    listed ▸ poll.supporters_sublist
  have size : (deployment.config poll.caller).peers.length = poll.calls.length := by
    rw [← listed, List.length_map]
  constructor
  · refine mesh.majority ((mesh.peers_nodup _).sublist sublist)
      (fun _ member => sublist.subset member) ?_
    rw [size]
    exact honest.tally.enough found vote complete
  · intro voter member
    rcases Deployment.mem_quorum.mp member with rfl | supports
    · exact self
    · obtain ⟨phase, calling, granted⟩ := Poll.mem_supporters.mp supports
      exact honest.cast _ phase calling granted voter rfl

theorem ballot_kept (mesh : deployment.FullMesh) :
    (ballotContract deployment).Kept deployment (plainShape deployment) LeadersHearQuorum where
  internal at' internal permitted stepped := by
    obtain ⟨effect, _⟩ := Process.node_effect at'.base internal permitted.1 stepped
    exact .here ⟨at'.process.keeps (effect.keepsVote permitted), fun out _ => ballot_sends _ _ _ out⟩
  startPreVote at' := ⟨at'.process, by simp [ballotContract, ballotShape, Poll.start,
    RaftNode.preVoteArgs]⟩
  startElection at' _ := by
    refine ⟨at'.process, fun _ => ⟨?_, .start ..⟩⟩
    intro peer phase member granted
    simp only [Poll.start, List.mem_map, Prod.mk.injEq] at member
    obtain ⟨_, _, _, rfl⟩ := member
    cases granted
  serveVote := by
    intro ghost i now process poll call at' plain honest found
    rcases process.node.handleRequestVote_cases now poll.args with
      ⟨⟨term, stepped⟩, refused⟩ | ⟨_, current, free, _, granted⟩
    · obtain ⟨next, path, _, voting⟩ := at'.process.stepDown at'.sound term
      refine ⟨next, path, by rw [stepped]; exact voting, fun real => ⟨?_, (honest real).tally.serve found⟩⟩
      refine (path.poll at'.sound honest real).reply found ?_
      intro vote
      simp [refused vote] at real
    · obtain ⟨middle, first, sound, voting⟩ := at'.process.stepDown at'.sound poll.args.term
      rw [plain.2] at free granted
      obtain ⟨next, second, final, cast⟩ := voting.grant mesh free
      have path : (ballotContract deployment).Path i ghost next := first.trans second
      refine ⟨next, path, by rw [granted]; exact final,
        fun real => ⟨?_, (honest real).tally.serve found⟩⟩
      refine (path.poll at'.sound honest real).reply found ?_
      intro _ j routed
      rw [mesh.addr_injective j i routed, ← current]
      exact cast
  resumePreVote _ _ _ probe _ real := by simp [probe] at real
  becomeCandidate := by
    intro ghost process poll after now _ at' honest probe stepped
    simp only [Process.step] at stepped
    split at stepped <;> cases stepped
    · obtain ⟨next, path, voting⟩ := at'.process.stand at'.sound at'.base.id
      exact ⟨next, path, voting, fun real => by simp [probe] at real⟩
    · exact .here ⟨at'.process, fun real => by simp [probe] at real⟩
  resumeVote := by
    intro ghost process poll call peer reply now plain at' honest real _ found
    rcases process.node.handleVoteReply_cases now poll.args.term poll.votes poll.majority reply
      with ⟨⟨term, stepped⟩, counted⟩ | ⟨stands, current, vote, complete, won⟩
    · obtain ⟨next, path, _, voting⟩ := at'.process.stepDown at'.sound term
      have later := path.poll at'.sound honest real
      refine ⟨next, path, by rw [stepped]; exact voting, fun _ => ⟨later.reply found ?_, later.tally.resume found counted⟩⟩
      exact later.cast peer (.replied reply) (List.mem_of_getElem? found)
    · rw [won]
      obtain ⟨majority, votes⟩ := (honest real).majority mesh plain.1 found vote complete
        (by rw [← current]; exact at'.process.candidate stands)
      rw [← current] at votes
      obtain ⟨next, path, voting⟩ := at'.process.win at'.sound majority votes now
      have later := path.poll at'.sound honest real
      refine ⟨next, path, voting, fun _ => ⟨later.reply found ?_,
        later.tally.resume found fun _ => vote⟩⟩
      exact later.cast peer (.replied reply) (List.mem_of_getElem? found)
  serveAppend at' _ _ _ _ := by
    obtain ⟨next, path, voting⟩ := at'.process.advances at'.sound
      (RaftNode.advances_handleAppendEntries _ _)
    exact ⟨next, path, voting, trivial⟩
  resumeAppend _ at' _ _ _ := by
    obtain ⟨next, path, voting⟩ := at'.process.advances at'.sound
      (RaftNode.advances_handleAppendReply ..)
    exact ⟨next, path, voting, trivial⟩
  serveInstall _ at' _ _ _ _ := by
    obtain ⟨next, path, voting⟩ := at'.process.advances at'.sound
      (RaftNode.advances_handleInstallSnapshot _ _)
    exact ⟨next, path, voting, trivial⟩
  resumeInstall _ at' _ _ _ := by
    obtain ⟨next, path, voting⟩ := at'.process.advances at'.sound
      (RaftNode.advances_handleInstallReply ..)
    exact ⟨next, path, voting, trivial⟩
  restart at' := at'.process.keeps (RaftNode.keepsVote_boot at'.process.synced _ rfl)
  interrupt at' _ _ _ stepped member :=
    at'.process.advances at'.sound
      ((Process.torn_step stepped member).1.advances at'.process.synced _)

omit [Fintype ι] [DecidableEq ι] in
theorem Voting.initial (i : ι) :
    Voting deployment .initial i (boot (deployment.config i) {}) := by
  obtain ⟨state, term, vote⟩ := RaftNode.boot_vote (deployment.config i) {}
  exact {
    term := term.symm
    vote := vote
    synced := by simp [RaftNode.Synced, RaftNode.boot_disk, term, vote]
    candidate := fun stands => by cases state.symm.trans stands
    leader := fun leads => by cases state.symm.trans leads }

theorem ballot_initial : (ballotContract deployment).Related .initial deployment.initial where
  sound := Ballot.Sound.initial
  holds := {
    process := .initial
    poll := fun _ member => by cases member
    append := fun _ member => by cases member
    install := fun _ member => by cases member }

end Kept

end RaftGo
