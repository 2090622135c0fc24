import RaftGo.Raft.Journal

/-! What a restart recovers from the two files of a data directory. The state file
may still hold the log that a newer snapshot file compacts: `restoreFromSnapshot`
then compacts it in memory, as the interrupted operation would have done. -/

namespace RaftGo.Raft

/-- The term of the snapshot file, zero if there is none. -/
def Disk.coveredTerm (disk : Disk) : Nat := (disk.snapshot.map SnapshotFile.term).getD 0

/-- The state `loadState` and `restoreFromSnapshot` recover together. -/
def Disk.recovered (disk : Disk) : PersistedState where
  currentTerm := (disk.state.map (·.currentTerm)).getD 0
  votedFor := (disk.state.map (·.votedFor)).getD ""
  entries := disk.log.compactTo disk.covered disk.coveredTerm

theorem memory_boot (cfg : Config) (disk : Disk) : (boot cfg disk).memory = disk.recovered := by
  obtain ⟨state, snapshot⟩ := disk
  unfold boot RaftNode.restoreFromSnapshot RaftNode.loadState RaftNode.memory Disk.recovered
    Disk.covered Disk.coveredTerm Disk.log
  cases state <;> cases snapshot with
  | none => simp [newRaftNode, Log.compactTo]
  | some file =>
    by_cases empty : file.index = 0
    · simp [newRaftNode, Log.compactTo, empty]
    · simp [newRaftNode, empty]

/-- The two files hold the state: together they recover it, and the snapshot file
is the one its log was compacted to. -/
structure Disk.Backs (disk : Disk) (memory : PersistedState) : Prop where
  recovered : disk.recovered = memory
  marker : memory.entries.sentinel = { index := disk.covered, term := disk.coveredTerm }
  positive : ∀ file, disk.snapshot = some file → 0 < file.index

namespace Disk.Backs

variable {disk : Disk} {memory : PersistedState}

theorem empty : ({} : Disk).Backs { currentTerm := 0, votedFor := "", entries := .new } :=
  ⟨rfl, rfl, by simp⟩

theorem snapshotIndex_eq (backs : disk.Backs memory) :
    memory.entries.snapshotIndex = disk.covered :=
  congrArg LogEntry.index backs.marker

/-- The state file is never compacted further than the snapshot file. -/
theorem log_le (backs : disk.Backs memory) : disk.log.snapshotIndex ≤ disk.covered := by
  have boundary := backs.snapshotIndex_eq
  rw [← backs.recovered, Disk.recovered, Log.snapshotIndex_compactTo] at boundary
  exact boundary ▸ Nat.le_max_left _ _

theorem persist (backs : disk.Backs memory) {next : PersistedState}
    (marker : next.entries.sentinel = memory.entries.sentinel) :
    Disk.Backs { disk with state := some next } next where
  recovered := by
    have boundary : next.entries.snapshotIndex = disk.covered :=
      (congrArg LogEntry.index marker).trans backs.snapshotIndex_eq
    have whole : next.entries.compactTo disk.covered disk.coveredTerm = next.entries :=
      next.entries.compactTo_of_le (Nat.le_of_eq boundary.symm) _
    exact congrArg (PersistedState.mk next.currentTerm next.votedFor) whole
  marker := marker.trans backs.marker
  positive := backs.positive

theorem saveSnapshot (backs : disk.Backs memory) {file : SnapshotFile}
    (ahead : memory.entries.snapshotIndex < file.index) :
    Disk.Backs { disk with snapshot := some file }
      { memory with entries := memory.entries.compactTo file.index file.term } where
  recovered := by
    have boundary := backs.snapshotIndex_eq
    have log : memory.entries = disk.log.compactTo disk.covered disk.coveredTerm :=
      congrArg PersistedState.entries backs.recovered.symm
    have behind : disk.log.snapshotIndex < file.index :=
      Nat.lt_of_le_of_lt (boundary ▸ backs.log_le) ahead
    have once : memory.entries.compactTo file.index file.term =
        disk.log.compactTo file.index file.term := by
      rw [log]
      exact disk.log.compactTo_compactTo (boundary ▸ ahead) behind _ _
    rw [once, ← backs.recovered]
    rfl
  marker := by
    rw [memory.entries.compactTo_of_lt ahead]
    rfl
  positive other same := by
    cases same
    exact Nat.zero_lt_of_lt ahead

end Disk.Backs

namespace RaftNode

variable {node middle after : RaftNode} {disk : Disk}

/-- The data directory of a node backs its memory. -/
def Backed (node : RaftNode) : Prop := node.disk.Backs node.memory

theorem Backed.persists (backed : node.Backed) (persists : node.Persists after) :
    after.Backed := by
  unfold Backed at backed ⊢
  cases persists with
  | rests memory disk journal => rwa [memory, disk]
  | saves marker disk journal =>
    rw [disk]
    exact backed.persist marker

theorem Backed.saved (backed : node.Backed) {file : SnapshotFile}
    (compacts : node.Compacts after file) :
    Disk.Backs { node.disk with snapshot := some file } after.memory := by
  have same : after.memory =
      { node.memory with entries := node.memory.entries.compactTo file.index file.term } := by
    simp [memory, compacts.currentTerm, compacts.votedFor, compacts.log]
  rw [same]
  exact Disk.Backs.saveSnapshot backed compacts.ahead

theorem Backed.compacts (backed : node.Backed) {file : SnapshotFile}
    (compacts : node.Compacts after file) : after.Backed := by
  have saved := backed.saved compacts
  have stored := saved.persist (rfl : after.memory.entries.sentinel = _)
  unfold Backed
  rw [compacts.disk]
  exact stored

end RaftNode

theorem Disk.Backs.boot {disk : Disk} {memory : PersistedState} (backs : disk.Backs memory)
    (cfg : Config) : (boot cfg disk).Backed := by
  obtain ⟨term, data, booted⟩ := boot_eq cfg disk
  have same : (Raft.boot cfg disk).disk = disk := by rw [booted]
  unfold RaftNode.Backed
  rw [same, memory_boot, backs.recovered]
  exact backs

/-- A restarted node stands where its snapshot file ends. -/
theorem boot_of_snapshot (cfg : Config) {disk : Disk} {file : SnapshotFile}
    (found : disk.snapshot = some file) (positive : 0 < file.index) :
    (boot cfg disk).lastApplied = file.index ∧ (boot cfg disk).commitIndex = file.index ∧
      (boot cfg disk).snapshotData = file.data := by
  obtain ⟨state, snapshot⟩ := disk
  cases found
  unfold boot RaftNode.restoreFromSnapshot RaftNode.loadState
  cases state <;> simp [newRaftNode, Nat.ne_of_gt positive]

end RaftGo.Raft
