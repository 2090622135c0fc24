import RaftGo.KvStore.Ordering

/-! What a snapshot from the leader does to the state machine of a node that has already
applied something. `HandleInstallSnapshot` compares it with the node's own snapshot only,
and never moves `lastApplied` back. -/

namespace RaftGo.KvStore

open Raft

/-- `HandleInstallSnapshot`, and then the apply loop takes the notification and restores the
snapshot, if there is one. -/
def Process.receiveSnapshot (codec : Codec) (now : Nat) (process : Process)
    (args : InstallSnapshotArgs) (saved : Bool) : Option Process :=
  (process.step codec now (.installSnapshot args saved)).bind fun received =>
    match received.node.snapshotNotifyC with
    | none => some received
    | some _ => (received.step codec now (.applyLoop .snapshot)).bind fun holding =>
      holding.step codec now (.applyLoop .snapshot)

variable {codec : Codec} {history : History} {process : Process} {args : InstallSnapshotArgs}

theorem receiveSnapshot_of_notified {saved : Bool} {snap : SnapshotToApply}
    (idle : process.loop = .select)
    (notified : (process.node.handleInstallSnapshot args saved).1.snapshotNotifyC = some snap)
    (now : Nat) : process.receiveSnapshot codec now args saved = some { process with
      node := { (process.node.handleInstallSnapshot args saved).1 with snapshotNotifyC := none }
      data := restore codec process.data snap.data
      loop := .deliver (.snapshot snap.index snap.term snap.data) } := by
  simp only [Process.receiveSnapshot, Process.step, Process.withNode, Process.applyLoop, notified,
    idle, Option.map_some, Option.bind_some]

theorem receiveSnapshot_of_relieved {saved : Bool} (clear : process.node.snapshotNotifyC = none)
    (relieved : process.node.Relieved args (process.node.handleInstallSnapshot args saved).1)
    (now : Nat) : process.receiveSnapshot codec now args saved =
      some (process.withNode (process.node.handleInstallSnapshot args saved).1) := by
  simp only [Process.receiveSnapshot, Process.step, Option.bind_some, Process.withNode,
    relieved.unaffected.snapshotNotifyC, clear]

/-- A snapshot leaves the state machine at `lastApplied` exactly if it is not installed (its
leader is behind, it cannot be saved or the node's own covers it), it covers what has been
applied, or the entries in between make no difference. -/
theorem snapshot_keeps_applied (idle : process.loop = .select)
    (clear : process.node.snapshotNotifyC = none)
    (current : process.data = stateAt codec history process.node.lastApplied)
    (genuine : args.data = codec.encodeData (stateAt codec history args.lastIncludedIndex))
    (now : Nat) (saved : Bool) :
    (∃ after, process.receiveSnapshot codec now args saved = some after ∧
      after.data = stateAt codec history after.node.lastApplied) ↔
    args.term < process.node.currentTerm ∨ saved = false ∨
      args.lastIncludedIndex ≤ process.node.log.snapshotIndex ∨
      process.node.lastApplied ≤ args.lastIncludedIndex ∨
      stateAt codec history args.lastIncludedIndex =
        stateAt codec history process.node.lastApplied := by
  rcases process.node.handleInstallSnapshot_outcome args saved with
    ⟨relieved, covered⟩ | ⟨written, reached, ahead, installed⟩
  · refine iff_of_true ⟨_, receiveSnapshot_of_relieved clear relieved now, ?_⟩ ?_
    · exact current.trans (congrArg (stateAt codec history) relieved.unaffected.lastApplied.symm)
    · rw [RaftNode.term_handleInstallSnapshot] at covered
      rcases Nat.lt_or_ge args.term process.node.currentTerm with stale | fresh
      · exact .inl stale
      · cases saved with
        | false => exact .inr (.inl rfl)
        | true => exact .inr (.inr (.inl (covered rfl (Nat.max_le.mpr ⟨fresh, Nat.le_refl _⟩))))
  · have notified : (process.node.handleInstallSnapshot args saved).1.snapshotNotifyC = some {
        index := args.lastIncludedIndex
        term := args.lastIncludedTerm
        data := args.data } := by
      rw [installed]
      rfl
    have applied : (process.node.handleInstallSnapshot args saved).1.lastApplied =
        max process.node.lastApplied args.lastIncludedIndex := by
      rw [← (process.node.unaffected_stepDown args.term).lastApplied, installed]
      rfl
    have fresh : process.node.currentTerm ≤ args.term := by
      rw [RaftNode.currentTerm_stepDown] at reached
      omega
    rw [receiveSnapshot_of_notified idle notified now]
    simp only [Option.some.injEq, exists_eq_left', applied, genuine, restore_encodeData]
    -- it is installed, and `lastApplied` only ever rises
    rcases Nat.le_total process.node.lastApplied args.lastIncludedIndex with covers | behind
    · rw [Nat.max_eq_right covers]
      exact iff_of_true rfl (.inr (.inr (.inr (.inl covers))))
    · rw [Nat.max_eq_left behind]
      constructor
      · exact fun same => .inr (.inr (.inr (.inr same)))
      · rintro (stale | failed | covered | covers | same)
        · exact absurd stale (Nat.not_lt.mpr fresh)
        · exact absurd (written.symm.trans failed) Bool.noConfusion
        · exact absurd ahead (Nat.not_lt.mpr covered)
        · rw [Nat.le_antisymm covers behind]
        · exact same

/-- Both entries arrive committed, the apply loop applies and delivers them. -/
def bothEntriesApplied : List (Nat × Input) := [
  (0, .appendEntries {
    term := 1
    leaderID := "node2"
    prevLogIndex := 0
    prevLogTerm := 0
    entries := setThenDelete
    leaderCommit := 2 }),
  (0, .applyLoop .commit),
  (0, .applyLoop .commit),
  (0, .applyLoop .commit),
  (0, .applyLoop .commit),
  (0, .applyLoop .commit),
  (0, .applyLoop .commit),
  (0, .applyLoop .commit),
  (0, .applyLoop .commit)]

/-- The leader's snapshot of the first entries of a history. -/
def snapshotAt (codec : Codec) (history : History) (index : Nat) : InstallSnapshotArgs where
  term := 1
  leaderID := "node2"
  lastIncludedIndex := index
  lastIncludedTerm := 1
  data := codec.encodeData (stateAt codec history index)

theorem snapshot_keeps_applied_follower : ∃ after,
    (follower 100).receiveSnapshot Codec.sample 0
      (snapshotAt Codec.sample setThenDeleteHistory 1) true = some after ∧
    after.data = stateAt Codec.sample setThenDeleteHistory after.node.lastApplied :=
  (snapshot_keeps_applied rfl rfl rfl rfl 0 true).mpr (.inr (.inr (.inr (.inl (Nat.zero_le _)))))

/-- The snapshot ends between the node's own, which is empty, and what it has applied: the
deletion is undone while `lastApplied` still counts it. -/
theorem snapshot_undoes_applied :
    ∃ moves process, (Process.system Codec.sample).Trace
        (fun process event => Genuine Codec.sample setThenDeleteHistory process event.2)
        (follower 100) moves process ∧
      process.loop = .select ∧ process.node.snapshotNotifyC = none ∧
      process.node.log.snapshotIndex ≤ process.node.lastApplied ∧
      process.node.lastApplied ≤ process.node.commitIndex ∧
      process.data = stateAt Codec.sample setThenDeleteHistory process.node.lastApplied ∧
      ∃ after, process.receiveSnapshot Codec.sample 0
          (snapshotAt Codec.sample setThenDeleteHistory 1) true = some after ∧
        after.data ≠ stateAt Codec.sample setThenDeleteHistory after.node.lastApplied := by
  obtain ⟨moves, process, trace, checked⟩ := (Process.system Codec.sample).exists_trace
    (fun process event => Genuine Codec.sample setThenDeleteHistory process event.2)
    (follower 100) bothEntriesApplied
    (fun _ process => (process.loop = .select && process.node.snapshotNotifyC = none &&
      process.node.log.snapshotIndex ≤ process.node.lastApplied &&
      process.node.lastApplied ≤ process.node.commitIndex &&
      process.data = stateAt Codec.sample setThenDeleteHistory process.node.lastApplied) &&
      (process.receiveSnapshot Codec.sample 0
        (snapshotAt Codec.sample setThenDeleteHistory 1) true).any fun after =>
          after.data ≠ stateAt Codec.sample setThenDeleteHistory after.node.lastApplied)
    (by decide +kernel)
  simp only [Bool.and_eq_true, Option.any_eq_true, decide_eq_true_eq] at checked
  obtain ⟨⟨⟨⟨⟨idle, clear⟩, boundary⟩, applied⟩, current⟩, undone⟩ := checked
  exact ⟨moves, process, trace, idle, clear, boundary, applied, current, undone⟩

end RaftGo.KvStore
