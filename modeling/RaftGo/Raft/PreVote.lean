import RaftGo.Raft.Cases

/-! Pre-vote rounds and the election after them. The handler of a probe looks neither at the
term of the probe nor at the vote it would have to give. -/

namespace RaftGo.Raft.RaftNode

theorem countPreVotes_iff {majority votes : Nat} (short : votes < majority) (results : List Bool) :
    countPreVotes majority votes results = true ↔ majority ≤ votes + results.countP (·) := by
  induction results generalizing votes with
  | nil => simpa [countPreVotes] using short
  | cons granted rest ih =>
    unfold countPreVotes
    cases granted with
    | false => simpa using ih short
    | true =>
      simp only [↓reduceIte, List.countP_cons_of_pos]
      split
      · simp only [true_iff]
        omega
      · rename_i still
        rw [ih (Nat.lt_of_not_le still)]
        omega

/-- The peers whose answer to the probe was yes. -/
def granting (node : RaftNode) (transport : String → Option RequestVoteReply) : List String :=
  node.peers.filter fun peer => (transport peer).any (·.voteGranted)

theorem preVoteRound_granting {node : RaftNode} (present : node.peers.isEmpty = false)
    (short : 1 < node.majority) (transport : String → Option RequestVoteReply) :
    node.preVoteRound transport = true ↔
      node.majority ≤ 1 + (node.granting transport).length := by
  unfold preVoteRound
  rw [present, if_neg Bool.false_ne_true, countPreVotes_iff short, List.countP_map,
    List.countP_eq_length_filter]
  refine iff_of_eq (congrArg (node.majority ≤ 1 + List.length ·) (List.filter_congr ?_))
  intro peer _
  simp only [Function.comp_apply]
  cases transport peer <;> rfl

/-- A probe is granted by those who have not heard from a leader and have no more
recent log. -/
def supports (node : RaftNode) (now : Nat) (args : RequestVoteArgs) : Bool :=
  !node.heardRecently now && node.candidateUpToDate args

theorem voteGranted_of_isPreVote (node : RaftNode) (now : Nat) {args : RequestVoteArgs}
    (probe : args.isPreVote = true) :
    (node.handleRequestVote now args).2.voteGranted = node.supports now args := by
  unfold handleRequestVote handlePreVote supports
  rw [if_pos probe]
  cases node.heardRecently now <;> simp

/-- A vote is given in the voter's term or a later one, at most once in a term, and to a log
that is at least as recent. -/
theorem voteGranted_handleRealVote_iff {voter : RaftNode} {args : RequestVoteArgs} :
    (voter.handleRealVote args).2.voteGranted = true ↔
      (voter.currentTerm < args.term ∨
        voter.currentTerm = args.term ∧ voter.canVote args.candidateID = true) ∧
      voter.candidateUpToDate args = true := by
  have upToDate : (voter.stepDown args.term).candidateUpToDate args =
      voter.candidateUpToDate args := by
    simp only [candidateUpToDate, log_stepDown]
  unfold handleRealVote
  simp only [upToDate]
  rcases Nat.lt_trichotomy voter.currentTerm args.term with later | same | stale
  · rw [stepDown_of_lt later]
    cases voter.candidateUpToDate args <;>
      simp [becomeFollower, persist, write, canVote, later]
  · rw [stepDown_of_le (Nat.le_of_eq same.symm), if_neg (Nat.not_lt.mpr (Nat.le_of_eq same))]
    cases voter.canVote args.candidateID <;> cases voter.candidateUpToDate args <;> simp [same]
  · rw [stepDown_of_le (Nat.le_of_lt stale), if_pos stale]
    simp [Nat.not_lt.mpr (Nat.le_of_lt stale), Nat.ne_of_gt stale]

theorem term_of_voteGranted {voter : RaftNode} {args : RequestVoteArgs}
    (granted : (voter.handleRealVote args).2.voteGranted = true) :
    (voter.handleRealVote args).2.term = args.term := by
  obtain ⟨current, _⟩ := voteGranted_handleRealVote_iff.mp granted
  have reached : (voter.stepDown args.term).currentTerm = args.term := by
    rw [currentTerm_stepDown]
    omega
  unfold handleRealVote
  dsimp only
  split
  · exact reached
  · split <;> exact reached

/-- The voter can still vote for the candidate in the term after the candidate's. -/
def Unpledged (voter candidate : RaftNode) : Prop :=
  voter.currentTerm < candidate.currentTerm + 1 ∨
    voter.currentTerm = candidate.currentTerm + 1 ∧ voter.canVote candidate.id = true

instance decidableUnpledged (voter candidate : RaftNode) : Decidable (voter.Unpledged candidate) :=
  inferInstanceAs (Decidable (_ ∨ _))

/-- A voter that grants the probe has judged the log; its own term and its vote are what the
election still depends on. -/
theorem voteGranted_after_probe {voter candidate : RaftNode} {asked : Nat}
    (probe : (voter.handleRequestVote asked candidate.preVoteArgs).2.voteGranted = true)
    (later : Nat) :
    (voter.handleRequestVote later candidate.becomeCandidate.voteArgs).2.voteGranted = true ↔
      voter.Unpledged candidate := by
  rw [voteGranted_of_isPreVote voter asked rfl, supports, Bool.and_eq_true] at probe
  have upToDate : voter.candidateUpToDate candidate.becomeCandidate.voteArgs = true := probe.2
  have request : voter.handleRequestVote later candidate.becomeCandidate.voteArgs =
      voter.handleRealVote candidate.becomeCandidate.voteArgs := rfl
  rw [request, voteGranted_handleRealVote_iff, and_iff_left upToDate]
  rfl

/-- What the peers that can be reached answer to a request. -/
def answers (voters : String → Option RaftNode) (now : Nat) (args : RequestVoteArgs)
    (peer : String) : Option RequestVoteReply :=
  (voters peer).map fun voter => (voter.handleRequestVote now args).2

theorem mem_granting {node : RaftNode} {voters : String → Option RaftNode} {now : Nat}
    {args : RequestVoteArgs} {peer : String} :
    peer ∈ node.granting (answers voters now args) ↔ peer ∈ node.peers ∧
      ∃ voter, voters peer = some voter ∧
        (voter.handleRequestVote now args).2.voteGranted = true := by
  rw [granting, List.mem_filter, answers]
  cases voters peer <;> simp

/-- The goroutines of `startElection` work through their replies one after the other. -/
def countVotes (now term majority : Nat) : Nat → RaftNode → List RequestVoteReply → RaftNode
  | _, node, [] => node
  | votes, node, reply :: rest =>
    let (next, counted) := node.handleVoteReply now term votes majority reply
    countVotes now term majority (if counted then votes + 1 else votes) next rest

/-- `startElection` of a candidate that receives these replies. -/
def election (node : RaftNode) (now : Nat) (replies : List RequestVoteReply) : RaftNode :=
  countVotes now node.currentTerm node.majority 1 node replies

theorem countVotes_leader {now term majority votes : Nat} {node : RaftNode}
    {replies : List RequestVoteReply} (leads : node.state = .leader)
    (terms : ∀ reply ∈ replies, reply.term = node.currentTerm) :
    (countVotes now term majority votes node replies).state = .leader := by
  induction replies generalizing votes with
  | nil => exact leads
  | cons reply rest ih =>
    have ignored : node.handleVoteReply now term votes majority reply = (node, false) := by
      simp [handleVoteReply, leads, terms reply List.mem_cons_self]
    rw [countVotes, ignored]
    exact ih fun other member => terms other (List.mem_cons_of_mem _ member)

theorem countVotes_wins {now majority votes : Nat} {node : RaftNode}
    {replies : List RequestVoteReply} (stands : node.state = .candidate)
    (granted : ∀ reply ∈ replies, reply.voteGranted = true ∧ reply.term = node.currentTerm)
    (short : votes < majority) (enough : majority ≤ votes + replies.length) :
    (countVotes now node.currentTerm majority votes node replies).state = .leader := by
  induction replies generalizing votes with
  | nil =>
    rw [List.length_nil] at enough
    omega
  | cons reply rest ih =>
    obtain ⟨vote, term⟩ := granted reply List.mem_cons_self
    have others := fun other member => granted other (List.mem_cons_of_mem reply member)
    rw [countVotes]
    by_cases complete : majority ≤ votes + 1
    · have won : node.handleVoteReply now node.currentTerm votes majority reply =
          (node.becomeLeader now, true) := by
        simp [handleVoteReply, stands, vote, term, complete]
      rw [won]
      exact countVotes_leader rfl fun other member => (others other member).2
    · have counted : node.handleVoteReply now node.currentTerm votes majority reply =
          (node, true) := by
        simp [handleVoteReply, stands, vote, term, complete]
      rw [counted]
      rw [List.length_cons] at enough
      exact ih others (by simpa using complete) (by simp; omega)

theorem majority_of_preVoteRound {node : RaftNode} {transport : String → Option RequestVoteReply}
    (won : node.preVoteRound transport = true) :
    1 < node.majority ∧ node.majority ≤ 1 + (node.granting transport).length := by
  have present : node.peers.isEmpty = false := by
    by_contra empty
    simp [preVoteRound, eq_true_of_ne_false empty] at won
  have size := List.length_pos_iff.mpr (List.isEmpty_eq_false_iff.mp present)
  have short : 1 < node.majority := by
    unfold majority
    omega
  exact ⟨short, (preVoteRound_granting present short transport).mp won⟩

/-- The votes of those who granted a won round elect the candidate, if they are given. -/
theorem election_of_granting {candidate : RaftNode} {voters : String → Option RaftNode}
    {asked : Nat} (later : Nat)
    (won : candidate.preVoteRound (answers voters asked candidate.preVoteArgs) = true)
    (granted : ∀ peer ∈ candidate.granting (answers voters asked candidate.preVoteArgs),
      ∃ voter, voters peer = some voter ∧ (voter.handleRequestVote later
        candidate.becomeCandidate.voteArgs).2.voteGranted = true) :
    (candidate.becomeCandidate.election later
      ((candidate.granting (answers voters asked candidate.preVoteArgs)).filterMap
        (answers voters later candidate.becomeCandidate.voteArgs))).state = .leader := by
  obtain ⟨short, enough⟩ := majority_of_preVoteRound won
  refine countVotes_wins rfl ?_ short ?_
  · intro reply member
    obtain ⟨peer, supporting, answered⟩ := List.mem_filterMap.mp member
    obtain ⟨voter, found, vote⟩ := granted peer supporting
    rw [answers, found, Option.map_some, Option.some.injEq] at answered
    subst answered
    exact ⟨vote, term_of_voteGranted vote⟩
  · rw [List.filterMap_length_eq_length.mpr]
    · exact enough
    · intro peer supporting
      obtain ⟨voter, found, _⟩ := granted peer supporting
      simp [answers, found]

/-- Pre-vote predicts the vote of those who are free to give it. If a round is won by the
answers of the peers as they are, all of those who granted the probe grant the real request
as well exactly if none of them has passed the new term or given its vote in that term away;
and then their votes elect the candidate. -/
theorem pre_vote_predicts (candidate : RaftNode) (voters : String → Option RaftNode)
    (asked later : Nat)
    (won : candidate.preVoteRound (answers voters asked candidate.preVoteArgs) = true) :
    ((∀ peer ∈ candidate.granting (answers voters asked candidate.preVoteArgs),
        ∃ voter, voters peer = some voter ∧ (voter.handleRequestVote later
          candidate.becomeCandidate.voteArgs).2.voteGranted = true) ↔
      ∀ peer ∈ candidate.granting (answers voters asked candidate.preVoteArgs),
        ∃ voter, voters peer = some voter ∧ voter.Unpledged candidate) ∧
    ((∀ peer ∈ candidate.granting (answers voters asked candidate.preVoteArgs),
        ∃ voter, voters peer = some voter ∧ voter.Unpledged candidate) →
      (candidate.becomeCandidate.election later
        ((candidate.granting (answers voters asked candidate.preVoteArgs)).filterMap
          (answers voters later candidate.becomeCandidate.voteArgs))).state = .leader) := by
  have same : (∀ peer ∈ candidate.granting (answers voters asked candidate.preVoteArgs),
      ∃ voter, voters peer = some voter ∧ (voter.handleRequestVote later
        candidate.becomeCandidate.voteArgs).2.voteGranted = true) ↔
      ∀ peer ∈ candidate.granting (answers voters asked candidate.preVoteArgs),
        ∃ voter, voters peer = some voter ∧ voter.Unpledged candidate := by
    refine forall₂_congr fun peer member => ?_
    obtain ⟨_, voter, found, probe⟩ := mem_granting.mp member
    simp only [found, Option.some.injEq, exists_eq_left', voteGranted_after_probe probe later]
  exact ⟨same, fun free => election_of_granting later won (same.mpr free)⟩

/-- A node whose two peers are new like itself. -/
def newcomer : RaftNode := newRaftNode { id := "node1", peers := ["node2:7001", "node3:7001"] }

/-- The peers of `newcomer`, with what they have seen of the elections. -/
def newcomerPeers (term : Nat) (votedFor : String) (peer : String) : Option RaftNode :=
  some { newRaftNode { id := peer, peers := ["node1:7001"] } with
    currentTerm := term, votedFor := votedFor }

/-- New peers give the vote they have promised. -/
theorem pre_vote_predicts_fresh :
    newcomer.preVoteRound (answers (newcomerPeers 0 "") 5 newcomer.preVoteArgs) = true ∧
      (newcomer.becomeCandidate.election 6
        ((newcomer.granting (answers (newcomerPeers 0 "") 5 newcomer.preVoteArgs)).filterMap
          (answers (newcomerPeers 0 "") 6 newcomer.becomeCandidate.voteArgs))).state = .leader := by
  have won : newcomer.preVoteRound (answers (newcomerPeers 0 "") 5 newcomer.preVoteArgs) = true := by
    decide
  refine ⟨won, (pre_vote_predicts newcomer (newcomerPeers 0 "") 5 6 won).2 ?_⟩
  intro peer _
  exact ⟨_, rfl, .inl (Nat.zero_lt_succ _)⟩

/-- Peers that are in a later term, or have voted for another candidate in the next one,
promise their votes and do not give them. -/
theorem pre_vote_unkept :
    (newcomer.preVoteRound (answers (newcomerPeers 7 "") 5 newcomer.preVoteArgs) = true ∧
      (newcomer.peers.filterMap (answers (newcomerPeers 7 "") 5
        newcomer.becomeCandidate.voteArgs)).any (·.voteGranted) = false) ∧
    (newcomer.preVoteRound (answers (newcomerPeers 1 "node4") 5 newcomer.preVoteArgs) = true ∧
      (newcomer.peers.filterMap (answers (newcomerPeers 1 "node4") 5
        newcomer.becomeCandidate.voteArgs)).any (·.voteGranted) = false) := by
  decide

end RaftGo.Raft.RaftNode
