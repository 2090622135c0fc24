import RaftGo.Raft.Node

/-! State transitions and elections (`raft/election.go`, and `checkQuorum` of
`raft/node.go`). Every function here runs with the node's lock held. -/

namespace RaftGo.Raft.RaftNode

variable (node : RaftNode)

def becomeFollower (term : Nat) : RaftNode :=
  { node with
    state := .follower
    currentTerm := term
    votedFor := ""
    leaderID := "" }.persist

def becomeCandidate : RaftNode :=
  { node with
    state := .candidate
    currentTerm := node.currentTerm + 1
    votedFor := node.id
    leaderID := "" }.persist

def becomeLeader (now : Nat) : RaftNode :=
  let last := node.log.lastIndex
  { node with
    state := .leader
    leaderID := node.id
    nextIndex := node.peers.foldl (fun table peer => table.set peer (last + 1)) node.nextIndex
    matchIndex := node.peers.foldl (fun table peer => table.set peer 0) node.matchIndex
    lastHeardFrom := node.peers.foldl (fun table peer => table.set peer now) node.lastHeardFrom }

/-- What `startPreVote` reads under the lock: the probe carries the next term. -/
def preVoteArgs : RequestVoteArgs where
  term := node.currentTerm + 1
  candidateID := node.id
  lastLogIndex := node.log.lastIndex
  lastLogTerm := node.log.lastTerm
  isPreVote := true

/-- The loop of `startPreVote` over the results of its goroutines. -/
def countPreVotes (majority : Nat) : Nat → List Bool → Bool
  | _, [] => false
  | votes, granted :: rest =>
    if granted then
      if votes + 1 ≥ majority then true else countPreVotes majority (votes + 1) rest
    else countPreVotes majority votes rest

/-- `startPreVote` over a transport that answers every probe at once; an error counts
as a refusal. -/
def preVoteRound (transport : String → Option RequestVoteReply) : Bool :=
  if node.peers.isEmpty then false
  else countPreVotes node.majority 1 (node.peers.map fun peer =>
    match transport peer with
    | none => false
    | some reply => reply.voteGranted)

/-- What `startElection` reads under the lock, in its own goroutine. -/
def voteArgs : RequestVoteArgs where
  term := node.currentTerm
  candidateID := node.id
  lastLogIndex := node.log.lastIndex
  lastLogTerm := node.log.lastTerm

/-- `time.Since(lastLeaderContact) < ElectionTimeoutMinMs`. -/
def heardRecently (now : Nat) : Bool :=
  match node.lastLeaderContact with
  | none => false
  | some contact => now - contact < node.config.electionTimeoutMinMs * millisecond

def candidateUpToDate (args : RequestVoteArgs) : Bool :=
  args.lastLogTerm > node.log.lastTerm ||
    (args.lastLogTerm == node.log.lastTerm && args.lastLogIndex ≥ node.log.lastIndex)

def canVote (candidateID : String) : Bool :=
  node.votedFor == "" || node.votedFor == candidateID

/-- The golden rule: a higher term makes any node a follower of that term. -/
def stepDown (term : Nat) : RaftNode :=
  if term > node.currentTerm then node.becomeFollower term else node

def grantVote (candidateID : String) : RaftNode :=
  { node with votedFor := candidateID }.persist.notifyHeartbeat

def handlePreVote (now : Nat) (args : RequestVoteArgs) : RaftNode × RequestVoteReply :=
  if node.heardRecently now then (node, { term := node.currentTerm })
  else (node, { term := node.currentTerm, voteGranted := node.candidateUpToDate args })

def handleRealVote (args : RequestVoteArgs) : RaftNode × RequestVoteReply :=
  let node := node.stepDown args.term
  if args.term < node.currentTerm then (node, { term := node.currentTerm })
  else if node.canVote args.candidateID && node.candidateUpToDate args then
    (node.grantVote args.candidateID, { term := node.currentTerm, voteGranted := true })
  else (node, { term := node.currentTerm })

def handleRequestVote (now : Nat) (args : RequestVoteArgs) : RaftNode × RequestVoteReply :=
  if args.isPreVote then node.handlePreVote now args else node.handleRealVote args

/-- A vote goroutine of `startElection` after its reply arrived. `votes` is the
counter all goroutines of that election share; the flag says whether this reply
was counted. -/
def handleVoteReply (now term votes majority : Nat) (reply : RequestVoteReply) :
    RaftNode × Bool :=
  if reply.term > node.currentTerm then (node.becomeFollower reply.term, false)
  else if node.state ≠ .candidate ∨ node.currentTerm ≠ term then (node, false)
  else if !reply.voteGranted then (node, false)
  else if votes + 1 ≥ majority then (node.becomeLeader now, true)
  else (node, true)

/-- The election timer found the node able to run for election. -/
def eligible : Bool := node.state ≠ .leader && !node.peers.isEmpty

/-- How many nodes, itself included, the leader heard from in the window. -/
def heard (now : Nat) : Nat :=
  1 + (node.peers.filter fun peer =>
    match node.lastHeardFrom peer with
    | none => false
    | some contact => now - contact < node.config.electionTimeoutMaxMs * millisecond).length

def checkQuorum (now : Nat) : RaftNode :=
  if node.state ≠ .leader then node
  else if node.heard now < node.majority then node.becomeFollower node.currentTerm
  else node

end RaftGo.Raft.RaftNode
