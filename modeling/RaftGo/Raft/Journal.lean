import RaftGo.Raft.Cases

/-! Crashes inside a critical section. A handler writes its state at most a few
times; what a crash between two of its writes leaves behind is either the old
state, the state after stepping down to a later term, or one of these with a new
snapshot file next to it. -/

namespace RaftGo.Raft.RaftNode

variable {node middle after : RaftNode} {disk : Disk}

/-- What `persist` saves of a node. -/
def memory (node : RaftNode) : PersistedState where
  currentTerm := node.currentTerm
  votedFor := node.votedFor
  entries := node.log

/-- A critical section leaves what `persist` saves alone, or saves what has become of
it; the snapshot marker stays. -/
inductive Persists (node after : RaftNode) : Prop where
  | rests (memory : after.memory = node.memory) (disk : after.disk = node.disk)
      (journal : after.journal = node.journal)
  | saves (marker : after.log.sentinel = node.log.sentinel)
      (disk : after.disk = { node.disk with state := some after.memory })
      (journal : after.journal = node.journal ++ [after.disk])

theorem Persists.refl (node : RaftNode) : Persists node node := .rests rfl rfl rfl

theorem persists_becomeFollower (term : Nat) : Persists node (node.becomeFollower term) :=
  .saves rfl rfl rfl

theorem persists_stepDown (term : Nat) : Persists node (node.stepDown term) := by
  rcases node.stepDown_cases term with ⟨_, same⟩ | ⟨_, stepped⟩
  · rw [same]
    exact .refl node
  · rw [stepped]
    exact persists_becomeFollower term

theorem persists_observeLeader (term : Nat) : Persists node (node.observeLeader term) := by
  rcases node.observeLeader_cases term with same | ⟨_, _, conceded⟩
  · exact same ▸ persists_stepDown term
  · exact conceded ▸ .rests rfl rfl rfl

theorem persists_handleRequestVote (node : RaftNode) (now : Nat) (args : RequestVoteArgs) :
    Persists (if args.isPreVote then node else node.stepDown args.term)
      (node.handleRequestVote now args).1 := by
  unfold handleRequestVote
  split
  · unfold handlePreVote
    split <;> exact .refl node
  · unfold handleRealVote
    dsimp only
    split
    · exact .refl _
    · split
      · exact .saves rfl rfl rfl
      · exact .refl _

theorem persists_handleVoteReply (now term votes majority : Nat) (reply : RequestVoteReply) :
    Persists node (node.handleVoteReply now term votes majority reply).1 := by
  rcases node.handleVoteReply_cases now term votes majority reply with
    ⟨⟨seen, same⟩, _⟩ | ⟨_, _, _, _, won⟩
  · exact same ▸ persists_stepDown seen
  · exact won ▸ .rests rfl rfl rfl

theorem persists_heartbeatTick (now : Nat) : Persists node (node.heartbeatTick now).1 := by
  have checked : Persists node (node.checkQuorum now) := by
    unfold checkQuorum
    split
    · exact .refl node
    · split
      · exact persists_becomeFollower _
      · exact .refl node
  unfold heartbeatTick
  split
  · cases checked with
    | rests memory disk journal => exact .rests memory disk journal
    | saves marker disk journal => exact .saves marker disk journal
  · exact .refl node

theorem persists_submit (command : Bytes) : Persists node (node.submit command).1 := by
  unfold submit
  split
  · exact .refl node
  · exact .saves rfl rfl rfl

theorem persists_handleAppendReply (now : Nat) (peer : String) (term : Nat)
    (args : AppendEntriesArgs) (reply : AppendEntriesReply) :
    Persists node (node.handleAppendReply now peer term args reply) := by
  rcases node.handleAppendReply_cases now peer term args reply with ⟨seen, same⟩ | ⟨_, _, recorded⟩
  · exact same ▸ persists_stepDown seen
  · obtain ⟨nextIndex, matchIndex, lastHeardFrom, commitIndex, signal, same⟩ :=
      node.recordReply_eq now peer args reply
    rw [recorded, same]
    exact .rests rfl rfl rfl

theorem persists_handleInstallReply (peer : String) (term : Nat) (args : InstallSnapshotArgs)
    (reply : InstallSnapshotReply) :
    Persists node (node.handleInstallReply peer term args reply) := by
  rcases node.handleInstallReply_cases peer term args reply with ⟨seen, same⟩ | ⟨_, _, advanced⟩
  · exact same ▸ persists_stepDown seen
  · obtain ⟨nextIndex, matchIndex, same⟩ := node.advanceMatch_eq peer args.lastIncludedIndex
    rw [advanced, same]
    exact .rests rfl rfl rfl

theorem persists_addPeer (now : Nat) (rpcAddr : String) :
    Persists node (node.addPeer now rpcAddr).1 := by
  rcases node.addPeer_cases now rpcAddr with ⟨_, same, _⟩ | ⟨_, _, _, _, added, _⟩
  · rw [same]
    exact .refl node
  · rw [added]
    exact .saves rfl rfl rfl

theorem persists_removePeer (now : Nat) (rpcAddr : String) :
    Persists node (node.removePeer now rpcAddr).1 := by
  rcases node.removePeer_cases now rpcAddr with ⟨_, same, _⟩ | ⟨_, _, removed, _⟩
  · rw [same]
    exact .refl node
  · rw [removed]
    exact .saves rfl rfl rfl

theorem persists_applyConfigEntry (now : Nat) (entry : LogEntry) :
    Persists node (node.applyConfigEntry now entry) := by
  obtain ⟨state, leaderID, nextIndex, matchIndex, lastHeardFrom, _, applied⟩ :=
    node.applyConfigEntry_eq now entry
  rw [applied]
  exact .rests rfl rfl rfl

theorem persists_handleAppendEntries (now : Nat) (args : AppendEntriesArgs) :
    Persists (node.observeLeader args.term) (node.handleAppendEntries now args).1 := by
  unfold handleAppendEntries
  dsimp only
  split
  · exact .refl _
  · split
    · exact .rests rfl rfl rfl
    · obtain ⟨signal, received, accepted⟩ :=
        ((node.observeLeader args.term).contacted now args.leaderID).acceptEntries_eq args
      rw [accepted]
      exact .saves (Log.sentinel_mergeEntries _ args.entries) rfl rfl

/-- The file of a snapshot is written before the state that refers to it. -/
structure Compacts (node after : RaftNode) (file : SnapshotFile) : Prop where
  ahead : node.log.snapshotIndex < file.index
  currentTerm : after.currentTerm = node.currentTerm
  votedFor : after.votedFor = node.votedFor
  log : after.log = node.log.compactTo file.index file.term
  disk : after.disk = { state := some after.memory, snapshot := some file }
  journal : after.journal = node.journal ++
    [{ node.disk with snapshot := some file }, after.disk]

theorem takeSnapshot_stage (node : RaftNode) (data : Bytes) (saved : Bool) :
    Persists node (node.takeSnapshot data saved) ∨
      ∃ file, Compacts node (node.takeSnapshot data saved) file := by
  rcases node.takeSnapshot_cases data saved with same | ⟨ahead, term, taken⟩
  · rw [same]
    exact .inl (.refl node)
  · rw [taken]
    exact .inr ⟨⟨node.lastApplied, term, data⟩, ahead, rfl, rfl, rfl, rfl,
      List.append_assoc ..⟩

theorem handleInstallSnapshot_stage (node : RaftNode) (args : InstallSnapshotArgs) (saved : Bool) :
    Persists (node.stepDown args.term) (node.handleInstallSnapshot args saved).1 ∨
      node.log.snapshotIndex < args.lastIncludedIndex ∧
        Compacts (node.stepDown args.term) (node.handleInstallSnapshot args saved).1
          ⟨args.lastIncludedIndex, args.lastIncludedTerm, args.data⟩ := by
  obtain ⟨relieved, before, outcome⟩ := node.handleInstallSnapshot_cases args saved
  have marker := congrArg Log.snapshotIndex (log_stepDown node args.term)
  rcases outcome with same | ⟨ahead, installed⟩
  · rw [same]
    cases before with
    | stale => exact .inl (.refl _)
    | current => exact .inl (.rests rfl rfl rfl)
  · rw [installed]
    refine .inr ⟨ahead, ?_⟩
    rw [← marker] at ahead
    -- What follows holds of any node; `stepDown` need not be unfolded for it.
    cases before <;> generalize node.stepDown args.term = stepped at ahead ⊢ <;>
      exact ⟨ahead, rfl, rfl, rfl, rfl, List.append_assoc ..⟩

theorem Persists.written (persists : Persists node middle) : ∃ contents,
    middle.journal = node.journal ++ contents ∧ ∀ content ∈ contents, content = middle.disk := by
  cases persists with
  | rests memory same journal => exact ⟨[], by simp [journal], by simp⟩
  | saves marker same journal => exact ⟨[middle.disk], journal, by simp⟩

/-- A crash between the writes of a handler finds the state after its term check. -/
theorem passing_of_persists (first : Persists node middle) (second : Persists middle after)
    (member : disk ∈ node.passing after) : disk = middle.disk := by
  obtain ⟨contents, journal, settled⟩ := first.written
  cases second with
  | rests memory same kept =>
    simp only [passing, kept, journal, List.drop_left] at member
    exact settled disk (List.mem_of_mem_dropLast member)
  | saves marker same grown =>
    simp only [passing, grown, journal, List.append_assoc, List.drop_left,
      List.dropLast_concat] at member
    exact settled disk member

/-- A crash while a snapshot is taken or installed may find its file already. -/
theorem passing_of_compacts {file : SnapshotFile} (first : Persists node middle)
    (second : Compacts middle after file) (member : disk ∈ node.passing after) :
    disk = middle.disk ∨ disk = { middle.disk with snapshot := some file } := by
  obtain ⟨contents, journal, settled⟩ := first.written
  have writes := second.journal
  simp only [passing, writes, journal, List.append_assoc, List.drop_left] at member
  rw [List.dropLast_append_of_ne_nil (by simp)] at member
  rcases List.mem_append.mp member with earlier | saved
  · exact .inl (settled disk earlier)
  · exact .inr (by simpa using saved)

/-- What a crash inside a handler can find of the persisted state. -/
def Torn (node : RaftNode) (disk : Disk) : Prop :=
  disk.state = node.disk.state ∨
    ∃ term, node.currentTerm < term ∧ disk.state = (node.becomeFollower term).disk.state

theorem torn_stepDown (node : RaftNode) (term : Nat) : node.Torn (node.stepDown term).disk := by
  rcases node.stepDown_cases term with ⟨_, same⟩ | ⟨later, stepped⟩
  · exact .inl (by rw [same])
  · exact .inr ⟨term, later, by rw [stepped]⟩

theorem torn_observeLeader (node : RaftNode) (term : Nat) :
    node.Torn (node.observeLeader term).disk := by
  rcases node.observeLeader_cases term with same | ⟨_, _, conceded⟩
  · rw [same]
    exact torn_stepDown node term
  · rw [conceded]
    exact .inl rfl

theorem Persists.snapshot (persists : Persists node after) :
    after.disk.snapshot = node.disk.snapshot := by
  cases persists with
  | rests memory disk journal => rw [disk]
  | saves marker disk journal => rw [disk]

end RaftGo.Raft.RaftNode
