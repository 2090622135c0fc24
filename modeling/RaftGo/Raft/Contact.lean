import RaftGo.Raft.Cases

/-! Contact with a leader. `HandleAppendEntries` and `HandleInstallSnapshot` each do the
bookkeeping of elections before they look at what the request carries. -/

namespace RaftGo.Raft

/-- What a node keeps for its elections; `heartbeatC` holds the pending reset of the
election timer. -/
structure Bookkeeping where
  state : NodeState
  currentTerm : Nat
  votedFor : String
  leaderID : String
  lastLeaderContact : Option Nat
  heartbeatC : Bool
deriving DecidableEq, Repr

namespace RaftNode

variable (node : RaftNode) (now : Nat)

def bookkeeping : Bookkeeping where
  state := node.state
  currentTerm := node.currentTerm
  votedFor := node.votedFor
  leaderID := node.leaderID
  lastLeaderContact := node.lastLeaderContact
  heartbeatC := node.heartbeatC

theorem bookkeeping_acceptEntries (args : AppendEntriesArgs) :
    (node.acceptEntries args).bookkeeping = node.bookkeeping := by
  obtain ⟨signal, received, accepted⟩ := node.acceptEntries_eq args
  rw [accepted]
  rfl

/-- Whether the entries are accepted makes no difference. -/
theorem bookkeeping_handleAppendEntries {args : AppendEntriesArgs}
    (current : node.currentTerm ≤ args.term) :
    (node.handleAppendEntries now args).1.bookkeeping =
      ((node.observeLeader args.term).contacted now args.leaderID).bookkeeping := by
  rcases node.handleAppendEntries_cases now args with ⟨stale, _⟩ | ⟨_, ⟨refused, _⟩ | ⟨_, accepted⟩⟩
  · exact absurd current (Nat.not_le.mpr stale)
  · rw [refused]
  · rw [accepted, bookkeeping_acceptEntries]

/-- Whether the snapshot is installed makes no difference. -/
theorem bookkeeping_handleInstallSnapshot {args : InstallSnapshotArgs}
    (current : node.currentTerm ≤ args.term) (saved : Bool) :
    (node.handleInstallSnapshot args saved).1.bookkeeping =
      (notifyHeartbeat { node.stepDown args.term with leaderID := args.leaderID }).bookkeeping := by
  have reached : ¬args.term < (node.stepDown args.term).currentTerm := by
    rw [currentTerm_stepDown, Nat.max_eq_right current]
    exact Nat.lt_irrefl _
  unfold handleInstallSnapshot
  dsimp only
  rw [if_neg reached]
  split
  · rfl
  · split
    · rfl
    · rename_i wrote
      rw [(saveSnapshot_cases wrote).2]
      rfl

theorem bookkeeping_stale {append : AppendEntriesArgs} {install : InstallSnapshotArgs}
    (same : append.term = install.term) (stale : append.term < node.currentTerm) (saved : Bool) :
    (node.handleAppendEntries now append).1.bookkeeping =
      (node.handleInstallSnapshot install saved).1.bookkeeping := by
  have observed : node.observeLeader append.term = node := by
    rw [observeLeader, if_neg (by omega), if_neg (by omega)]
  have kept : node.stepDown install.term = node := stepDown_of_le (same ▸ Nat.le_of_lt stale)
  have refused : (node.handleAppendEntries now append).1 = node := by
    rw [handleAppendEntries, observed]
    exact congrArg Prod.fst (if_pos stale)
  have ignored : (node.handleInstallSnapshot install saved).1 = node := by
    rw [handleInstallSnapshot, kept]
    exact congrArg Prod.fst (if_pos (same ▸ stale))
  rw [refused, ignored]

/-- A node that does not lead books both requests of one leader in the same way exactly when
they are stale, or when it has booked a contact at this very time already and is no
candidate of the leader's term. -/
theorem bookkeeping_contact_iff (follows : node.state ≠ .leader) {append : AppendEntriesArgs}
    {install : InstallSnapshotArgs} (term : append.term = install.term)
    (leaderID : append.leaderID = install.leaderID) (saved : Bool) :
    (node.handleAppendEntries now append).1.bookkeeping =
        (node.handleInstallSnapshot install saved).1.bookkeeping ↔
      append.term < node.currentTerm ∨ node.lastLeaderContact = some now ∧
        (node.state = .follower ∨ node.currentTerm < append.term) := by
  rcases Nat.lt_trichotomy append.term node.currentTerm with stale | same | later
  · exact iff_of_true (node.bookkeeping_stale now term stale saved) (.inl stale)
  · have current : node.currentTerm ≤ append.term := Nat.le_of_eq same.symm
    rw [bookkeeping_handleAppendEntries node now current,
      bookkeeping_handleInstallSnapshot node (term ▸ current), ← term, ← leaderID,
      stepDown_of_le (Nat.le_of_eq same)]
    simp only [same, Nat.lt_irrefl, false_or, or_false]
    cases state : node.state with
    | leader => exact absurd state follows
    | candidate =>
      simp [observeLeader, state, bookkeeping, contacted, notifyHeartbeat]
    | follower =>
      simp [observeLeader, state, bookkeeping, contacted, notifyHeartbeat, eq_comm]
  · have current : node.currentTerm ≤ append.term := Nat.le_of_lt later
    rw [bookkeeping_handleAppendEntries node now current,
      bookkeeping_handleInstallSnapshot node (term ▸ current), ← term, ← leaderID,
      stepDown_of_lt later]
    simp [observeLeader, later, bookkeeping, contacted, notifyHeartbeat, becomeFollower, persist,
      write, Nat.lt_asymm later, eq_comm]

/-- A node in term 3. -/
def catchingUp : RaftNode :=
  { newRaftNode { id := "node1", peers := ["node2:7001"] } with currentTerm := 3 }

/-- A node that has heard from the leader just now. -/
theorem bookkeeping_contact_again :
    ({ catchingUp with lastLeaderContact := some 5 }.handleAppendEntries 5
        ⟨3, "node2", 0, 0, [], 0⟩).1.bookkeeping =
      ({ catchingUp with lastLeaderContact := some 5 }.handleInstallSnapshot
        ⟨3, "node2", 4, 2, []⟩ true).1.bookkeeping :=
  (bookkeeping_contact_iff _ 5 (by decide) rfl rfl true).mpr (.inr ⟨rfl, .inl rfl⟩)

/-- A candidate of the leader's term stays one when the leader sends it a snapshot, and a
follower does not book the contact. -/
theorem snapshot_without_contact :
    ({ catchingUp with state := .candidate }.handleAppendEntries 5
        ⟨3, "node2", 0, 0, [], 0⟩).1.bookkeeping.state = .follower ∧
      ({ catchingUp with state := .candidate }.handleInstallSnapshot
        ⟨3, "node2", 4, 2, []⟩ true).1.bookkeeping.state = .candidate ∧
      (catchingUp.handleAppendEntries 5
        ⟨3, "node2", 0, 0, [], 0⟩).1.bookkeeping.lastLeaderContact = some 5 ∧
      (catchingUp.handleInstallSnapshot
        ⟨3, "node2", 4, 2, []⟩ true).1.bookkeeping.lastLeaderContact = none := by
  decide

end RaftNode

end RaftGo.Raft
