import RaftGo.Raft.Journal

/-! How handlers move terms and votes. Apart from standing for election, granting
a vote and winning, everything a node does either keeps its term and vote or first
steps down to a later term; a restart does neither more nor less than the disk
says. -/

namespace RaftGo.Raft.RaftNode

variable {node middle after : RaftNode}

/-- The disk holds the term and the vote of the node; an empty one stands for a
node that has never voted. -/
def Synced (node : RaftNode) : Prop :=
  match node.disk.state with
  | none => node.currentTerm = 0 ∧ node.votedFor = ""
  | some state => state.currentTerm = node.currentTerm ∧ state.votedFor = node.votedFor

theorem synced_persist (node : RaftNode) : node.persist.Synced := ⟨rfl, rfl⟩

/-- Same term, same vote, and no claim to candidacy or leadership is added. -/
structure KeepsVote (node after : RaftNode) : Prop where
  currentTerm : after.currentTerm = node.currentTerm
  votedFor : after.votedFor = node.votedFor
  synced : node.Synced → after.Synced
  state : after.state = node.state ∨ after.state = .follower

theorem KeepsVote.frame (currentTerm : after.currentTerm = node.currentTerm)
    (votedFor : after.votedFor = node.votedFor) (disk : after.disk.state = node.disk.state)
    (state : after.state = node.state ∨ after.state = .follower) : KeepsVote node after where
  currentTerm := currentTerm
  votedFor := votedFor
  synced held := by
    unfold Synced at held ⊢
    rwa [disk, currentTerm, votedFor]
  state := state

theorem KeepsVote.refl (node : RaftNode) : KeepsVote node node := .frame rfl rfl rfl (.inl rfl)

theorem KeepsVote.trans (first : KeepsVote node middle) (second : KeepsVote middle after) :
    KeepsVote node after where
  currentTerm := second.currentTerm.trans first.currentTerm
  votedFor := second.votedFor.trans first.votedFor
  synced := second.synced ∘ first.synced
  state := by
    rcases second.state with same | follower
    · exact same ▸ first.state
    · exact .inr follower

theorem KeepsVote.persist (keeps : KeepsVote node after) : KeepsVote node after.persist where
  currentTerm := keeps.currentTerm
  votedFor := keeps.votedFor
  synced _ := synced_persist after
  state := keeps.state

/-- Perhaps a step down to a later term, and nothing else that touches votes. -/
def Advances (node after : RaftNode) : Prop := ∃ term, KeepsVote (node.stepDown term) after

theorem KeepsVote.advances (keeps : KeepsVote node after) : Advances node after :=
  ⟨0, by simpa [stepDown] using keeps⟩

theorem advances_stepDown (term : Nat) : Advances node (node.stepDown term) := ⟨term, .refl _⟩

theorem keepsVote_submit (command : Bytes) : KeepsVote node (node.submit command).1 := by
  unfold submit
  split
  · exact .refl node
  · exact KeepsVote.persist (.frame rfl rfl rfl (.inl rfl))

theorem keepsVote_maybeCommit : KeepsVote node node.maybeCommit := by
  unfold maybeCommit
  split
  · exact .frame rfl rfl rfl (.inl rfl)
  · exact .refl node

theorem keepsVote_advanceMatch (peer : String) (newMatch : Nat) :
    KeepsVote node (node.advanceMatch peer newMatch) := by
  unfold advanceMatch
  dsimp only
  split <;> exact .frame rfl rfl rfl (.inl rfl)

theorem keepsVote_recordReply (now : Nat) (peer : String) (args : AppendEntriesArgs)
    (reply : AppendEntriesReply) : KeepsVote node (node.recordReply now peer args reply) := by
  have heard : KeepsVote node { node with lastHeardFrom := node.lastHeardFrom.set peer now } :=
    .frame rfl rfl rfl (.inl rfl)
  unfold recordReply
  dsimp only
  split
  · exact (heard.trans (keepsVote_advanceMatch peer _)).trans keepsVote_maybeCommit
  · exact .frame rfl rfl rfl (.inl rfl)

theorem advances_handleAppendReply (now : Nat) (peer : String) (term : Nat)
    (args : AppendEntriesArgs) (reply : AppendEntriesReply) :
    Advances node (node.handleAppendReply now peer term args reply) := by
  rcases node.handleAppendReply_cases now peer term args reply with ⟨seen, stepped⟩ |
    ⟨_, _, recorded⟩
  · exact stepped ▸ advances_stepDown seen
  · exact recorded ▸ (keepsVote_recordReply now peer args reply).advances

theorem advances_handleInstallReply (peer : String) (term : Nat) (args : InstallSnapshotArgs)
    (reply : InstallSnapshotReply) :
    Advances node (node.handleInstallReply peer term args reply) := by
  rcases node.handleInstallReply_cases peer term args reply with ⟨seen, stepped⟩ |
    ⟨_, _, advanced⟩
  · exact stepped ▸ advances_stepDown seen
  · exact advanced ▸ (keepsVote_advanceMatch peer _).advances

theorem keepsVote_advanceCommit (leaderCommit : Nat) :
    KeepsVote node (node.advanceCommit leaderCommit) := by
  unfold advanceCommit
  split
  · exact .frame rfl rfl rfl (.inl rfl)
  · exact .refl node

theorem keepsVote_acceptEntries (args : AppendEntriesArgs) :
    KeepsVote node (node.acceptEntries args) := by
  have merged : KeepsVote node { node with log := node.log.mergeEntries args.entries } :=
    .frame rfl rfl rfl (.inl rfl)
  have stored := (merged.trans (keepsVote_advanceCommit args.leaderCommit)).persist
  unfold acceptEntries
  dsimp only
  split
  · exact ⟨stored.currentTerm, stored.votedFor, stored.synced, stored.state⟩
  · exact stored

theorem keepsVote_observeLeader (term : Nat) :
    KeepsVote (node.stepDown term) (node.observeLeader term) := by
  unfold stepDown observeLeader
  split
  · exact .refl _
  · split
    · exact .frame rfl rfl rfl (.inr rfl)
    · exact .refl _

theorem advances_handleAppendEntries (now : Nat) (args : AppendEntriesArgs) :
    Advances node (node.handleAppendEntries now args).1 := by
  have observed : KeepsVote (node.stepDown args.term) (node.observeLeader args.term) :=
    keepsVote_observeLeader args.term
  have contacted : KeepsVote (node.stepDown args.term)
      ((node.observeLeader args.term).contacted now args.leaderID) :=
    observed.trans (.frame rfl rfl rfl (.inl rfl))
  refine ⟨args.term, ?_⟩
  unfold handleAppendEntries
  dsimp only
  split
  · exact observed
  · split
    · exact contacted
    · exact contacted.trans (keepsVote_acceptEntries args)

theorem keepsVote_takeSnapshot (data : Bytes) (saved : Bool) :
    KeepsVote node (node.takeSnapshot data saved) := by
  rcases node.takeSnapshot_cases data saved with same | ⟨_, term, built⟩
  · rw [same]
    exact .refl node
  · rw [built]
    exact KeepsVote.persist (.frame rfl rfl rfl (.inl rfl))

theorem advances_handleInstallSnapshot (args : InstallSnapshotArgs) (saved : Bool) :
    Advances node (node.handleInstallSnapshot args saved).1 := by
  obtain ⟨relieved, before, outcome⟩ := node.handleInstallSnapshot_cases args saved
  have kept : KeepsVote (node.stepDown args.term) relieved := by
    cases before with
    | stale => exact .refl _
    | current => exact .frame rfl rfl rfl (.inl rfl)
  refine ⟨args.term, ?_⟩
  rcases outcome with same | ⟨_, built⟩
  · exact same ▸ kept
  · rw [built]
    exact ⟨kept.currentTerm, kept.votedFor, fun _ => ⟨rfl, rfl⟩, kept.state⟩

theorem keepsVote_heartbeatTick {now : Nat}
    (quorum : node.state = .leader → node.majority ≤ node.heard now) :
    KeepsVote node (node.heartbeatTick now).1 := by
  obtain ⟨sent, same⟩ := heartbeatTick_of_quorum quorum
  rw [same]
  exact .frame rfl rfl rfl (.inl rfl)

/-- How the role of a node changes. -/
inductive Standing (node after : RaftNode) : Prop where
  | keeps (state : after.state = node.state) (currentTerm : after.currentTerm = node.currentTerm)
  | yields (state : after.state = .follower) (later : node.currentTerm ≤ after.currentTerm)
  | stands (state : after.state = .candidate)
      (currentTerm : after.currentTerm = node.currentTerm + 1)
  | wins (stood : node.state = .candidate) (state : after.state = .leader)
      (currentTerm : after.currentTerm = node.currentTerm)

theorem Standing.currentTerm_le (standing : Standing node after) :
    node.currentTerm ≤ after.currentTerm := by
  cases standing <;> omega

theorem Advances.standing (advances : Advances node after) : Standing node after := by
  obtain ⟨term, keeps⟩ := advances
  rcases node.stepDown_cases term with ⟨_, same⟩ | ⟨later, stepped⟩
  · rw [same] at keeps
    rcases keeps.state with state | follower
    · exact .keeps state keeps.currentTerm
    · exact .yields follower keeps.currentTerm.ge
  · rw [stepped] at keeps
    refine .yields ?_ (keeps.currentTerm ▸ Nat.le_of_lt later)
    rcases keeps.state with state | follower
    · exact state
    · exact follower

theorem standing_handleRequestVote (now : Nat) (args : RequestVoteArgs) :
    Standing node (node.handleRequestVote now args).1 := by
  rcases node.handleRequestVote_cases now args with ⟨⟨term, stepped⟩, _⟩ | ⟨_, _, _, _, granted⟩
  · exact stepped ▸ (advances_stepDown term).standing
  · rw [granted]
    -- the vote is cast in the term just reached
    cases (advances_stepDown args.term : Advances node _).standing with
    | keeps state currentTerm => exact .keeps state currentTerm
    | yields state later => exact .yields state later
    | stands state currentTerm => exact .stands state currentTerm
    | wins stood state currentTerm => exact .wins stood state currentTerm

theorem standing_handleVoteReply (now term votes majority : Nat) (reply : RequestVoteReply) :
    Standing node (node.handleVoteReply now term votes majority reply).1 := by
  rcases node.handleVoteReply_cases now term votes majority reply with
    ⟨⟨seen, stepped⟩, _⟩ | ⟨stood, _, _, _, won⟩
  · exact stepped ▸ (advances_stepDown seen).standing
  · rw [won]
    exact .wins stood rfl rfl

theorem standing_heartbeatTick (now : Nat) : Standing node (node.heartbeatTick now).1 := by
  unfold heartbeatTick checkQuorum
  split
  · split
    · exact .keeps rfl rfl
    · split
      · exact .yields rfl (Nat.le_refl _)
      · exact .keeps rfl rfl
  · exact .keeps rfl rfl

theorem boot_disk (cfg : Config) (disk : Disk) : (boot cfg disk).disk = disk := by
  obtain ⟨term, data, booted⟩ := boot_eq cfg disk
  rw [booted]

/-- A restart comes back with the persisted term and vote, as a follower. -/
theorem boot_vote (cfg : Config) (disk : Disk) :
    (boot cfg disk).state = .follower ∧
    (boot cfg disk).currentTerm = (disk.state.map (·.currentTerm)).getD 0 ∧
    (boot cfg disk).votedFor = (disk.state.map (·.votedFor)).getD "" := by
  obtain ⟨term, data, booted⟩ := boot_eq cfg disk
  rw [booted]
  exact ⟨rfl, rfl, rfl⟩

theorem keepsVote_boot (synced : node.Synced) (cfg : Config) {disk : Disk}
    (same : disk.state = node.disk.state) : KeepsVote node (boot cfg disk) := by
  obtain ⟨state, term, vote⟩ := boot_vote cfg disk
  have held := synced
  unfold Synced at held
  refine .frame ?_ ?_ (by rw [boot_disk, same]) (.inr state)
  · rw [term, same]
    cases written : node.disk.state <;> simp_all
  · rw [vote, same]
    cases written : node.disk.state <;> simp_all

/-- A crash inside a handler loses at most the rest of that handler. -/
theorem Torn.advances {disk : Disk} (torn : node.Torn disk) (synced : node.Synced)
    (cfg : Config) : Advances node (boot cfg disk) := by
  rcases torn with same | ⟨term, later, same⟩
  · exact (keepsVote_boot synced cfg same).advances
  · refine ⟨term, ?_⟩
    rw [stepDown, if_pos later]
    exact keepsVote_boot (synced_persist _) cfg same

end RaftGo.Raft.RaftNode
