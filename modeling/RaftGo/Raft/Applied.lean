import RaftGo.Raft.Parts

/-! How far a node has applied its log, the snapshot file and the snapshot waiting
for the apply loop. Only the apply loop, `TakeSnapshot` and
`HandleInstallSnapshot` move them. -/

namespace RaftGo.Raft

namespace RaftNode

variable {node middle after : RaftNode} {now : Nat} {part : Part} {parts : List Part}

/-- The snapshot files the data directory has held since the node started. -/
def snapshots (node : RaftNode) : List SnapshotFile :=
  (node.disk :: node.journal).filterMap Disk.snapshot

theorem mem_snapshots_write {disk : Disk} {file : SnapshotFile}
    (member : file ∈ (node.write disk).snapshots) :
    disk.snapshot = some file ∨ file ∈ node.snapshots := by
  obtain ⟨source, held, found⟩ := List.mem_filterMap.mp member
  have origin : source = disk ∨ source ∈ node.journal ∨ source = disk := by
    simpa [write] using held
  rcases origin with rfl | earlier | rfl
  · exact .inl found
  · exact .inr (List.mem_filterMap.mpr ⟨source, List.mem_cons_of_mem _ earlier, found⟩)
  · exact .inl found

theorem mem_snapshots_persist {file : SnapshotFile} (member : file ∈ node.persist.snapshots) :
    file ∈ node.snapshots := by
  rcases mem_snapshots_write member with current | earlier
  · exact List.mem_filterMap.mpr ⟨node.disk, List.mem_cons_self, current⟩
  · exact earlier

structure KeepsApplied (node after : RaftNode) : Prop where
  lastApplied : after.lastApplied = node.lastApplied
  snapshotNotifyC : after.snapshotNotifyC = node.snapshotNotifyC
  snapshots : ∀ file ∈ after.snapshots, file ∈ node.snapshots

namespace KeepsApplied

theorem frame (lastApplied : after.lastApplied = node.lastApplied)
    (notify : after.snapshotNotifyC = node.snapshotNotifyC) (disk : after.disk = node.disk)
    (journal : after.journal = node.journal) : KeepsApplied node after where
  lastApplied := lastApplied
  snapshotNotifyC := notify
  snapshots file member := by rwa [RaftNode.snapshots, disk, journal] at member

theorem refl (node : RaftNode) : KeepsApplied node node := .frame rfl rfl rfl rfl

theorem trans (first : KeepsApplied node middle) (second : KeepsApplied middle after) :
    KeepsApplied node after where
  lastApplied := second.lastApplied.trans first.lastApplied
  snapshotNotifyC := second.snapshotNotifyC.trans first.snapshotNotifyC
  snapshots file member := first.snapshots file (second.snapshots file member)

theorem persist (same : KeepsApplied node after) : KeepsApplied node after.persist where
  lastApplied := same.lastApplied
  snapshotNotifyC := same.snapshotNotifyC
  snapshots file member := same.snapshots file (mem_snapshots_persist member)

end KeepsApplied

theorem Change.keepsApplied (change : Change now node part after)
    (other : part ∉ [.compaction, .installation]) : KeepsApplied node after := by
  cases change with
  | becomeFollower | becomeCandidate => exact KeepsApplied.persist (.frame rfl rfl rfl rfl)
  | grantVote candidateID =>
    have voted : KeepsApplied node (RaftNode.persist { node with votedFor := candidateID }) :=
      KeepsApplied.persist (.frame rfl rfl rfl rfl)
    exact voted.trans (.frame rfl rfl rfl rfl)
  | persist => exact (KeepsApplied.refl node).persist
  | maybeCommit =>
    obtain ⟨commitIndex, signal, committed⟩ := node.maybeCommit_eq
    rw [committed]
    exact .frame rfl rfl rfl rfl
  | advanceCommit leaderCommit =>
    obtain ⟨commitIndex, signal, committed⟩ := node.advanceCommit_eq leaderCommit
    rw [committed]
    exact .frame rfl rfl rfl rfl
  | compact | install => simp at other
  | _ => exact .frame rfl rfl rfl rfl

theorem Changes.keepsApplied (changes : Changes now parts node after)
    (others : ∀ part ∈ parts, part ∉ [.compaction, .installation]) : KeepsApplied node after :=
  changes.keeps .refl .trans fun member change => change.keepsApplied (others _ member)

/-- The peers are the same as well. -/
structure Unaffected (node after : RaftNode) : Prop extends KeepsApplied node after where
  config : after.config = node.config
  peers : after.peers = node.peers

namespace Unaffected

theorem refl (node : RaftNode) : Unaffected node node := ⟨.refl node, rfl, rfl⟩

theorem trans (first : Unaffected node middle) (second : Unaffected middle after) :
    Unaffected node after where
  toKeepsApplied := first.toKeepsApplied.trans second.toKeepsApplied
  config := second.config.trans first.config
  peers := second.peers.trans first.peers

end Unaffected

theorem Change.unaffected (change : Change now node part after)
    (other : part ∉ [.peers, .compaction, .installation]) : Unaffected node after := by
  have applied := change.keepsApplied fun member => other (List.mem_cons_of_mem _ member)
  cases change with
  | maybeCommit =>
    obtain ⟨commitIndex, signal, committed⟩ := node.maybeCommit_eq
    rw [committed] at applied ⊢
    exact ⟨applied, rfl, rfl⟩
  | advanceCommit leaderCommit =>
    obtain ⟨commitIndex, signal, committed⟩ := node.advanceCommit_eq leaderCommit
    rw [committed] at applied ⊢
    exact ⟨applied, rfl, rfl⟩
  | addPeer | compact | install => simp at other
  | _ => exact ⟨applied, rfl, rfl⟩

theorem Changes.unaffected (changes : Changes now parts node after)
    (others : ∀ part ∈ parts, part ∉ [.peers, .compaction, .installation]) :
    Unaffected node after :=
  changes.keeps .refl .trans fun member change => change.unaffected (others _ member)

theorem unaffected_stepDown (term : Nat) : Unaffected node (node.stepDown term) := by
  have changes : Changes 0 [.role] node (node.stepDown term) := .stepDown node term
  exact changes.unaffected (by simp)

theorem Relieved.unaffected {args : InstallSnapshotArgs} (relieved : Relieved node args after) :
    Unaffected node after := by
  have changes : Changes 0 [.role] node after := .relieved relieved
  exact changes.unaffected (by simp)

theorem keepsApplied_applyConfigEntry (node : RaftNode) (now : Nat) (entry : LogEntry) :
    KeepsApplied node (node.applyConfigEntry now entry) := by
  obtain ⟨state, leaderID, nextIndex, matchIndex, lastHeardFrom, _, applied⟩ :=
    node.applyConfigEntry_eq now entry
  rw [applied]
  exact ⟨rfl, rfl, fun file member => member⟩

/-- `TakeSnapshot` saves what it is given under the index it reads. -/
theorem takeSnapshot_saves (node : RaftNode) (data : Bytes) (saved : Bool) :
    (node.takeSnapshot data saved).lastApplied = node.lastApplied ∧
      (node.takeSnapshot data saved).snapshotNotifyC = node.snapshotNotifyC ∧
      ∀ file ∈ (node.takeSnapshot data saved).snapshots,
        file ∈ node.snapshots ∨ file.index = node.lastApplied ∧ file.data = data := by
  rcases node.takeSnapshot_cases data saved with same | ⟨_, term, built⟩
  · rw [same]
    exact ⟨rfl, rfl, fun file => .inl⟩
  · rw [built]
    refine ⟨rfl, rfl, fun file member => ?_⟩
    have written := mem_snapshots_persist member
    change file ∈ (node.write _).snapshots at written
    rcases mem_snapshots_write written with new | old
    · cases new
      exact .inr ⟨rfl, rfl⟩
    · exact .inl old

end RaftNode

theorem boot_applied (cfg : Config) (disk : Disk) :
    (boot cfg disk).lastApplied = disk.covered ∧
      (boot cfg disk).snapshotNotifyC = none ∧
      (boot cfg disk).snapshots = disk.snapshot.toList := by
  obtain ⟨term, data, booted⟩ := boot_eq cfg disk
  rw [booted]
  refine ⟨rfl, rfl, ?_⟩
  cases found : disk.snapshot <;> simp [RaftNode.snapshots, newRaftNode, found]

end RaftGo.Raft
