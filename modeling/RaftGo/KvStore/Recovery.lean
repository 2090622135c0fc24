import RaftGo.KvStore.Lives
import RaftGo.Raft.Recovery

/-! Crash recovery. Over all its lives the data directory of a process backs the
memory of its node, and a crash inside an operation falls back to the memory at one
of the points the operation passes. -/

namespace RaftGo.KvStore

open Raft Library

/-- The node stands at the end of a snapshot file and holds its data. -/
structure StandsAt (node : RaftNode) (file : SnapshotFile) : Prop where
  index : node.log.snapshotIndex = file.index
  term : node.log.snapshotTerm = file.term
  lastApplied : node.lastApplied = file.index
  commitIndex : node.commitIndex = file.index
  data : node.snapshotData = file.data

theorem standsAt_boot (cfg : Config) {disk : Disk} {memory : PersistedState}
    (backs : disk.Backs memory) {file : SnapshotFile} (found : disk.snapshot = some file) :
    StandsAt (boot cfg disk) file := by
  obtain ⟨lastApplied, commitIndex, data⟩ := boot_of_snapshot cfg found (backs.positive file found)
  have log : (boot cfg disk).log = memory.entries :=
    congrArg PersistedState.entries ((memory_boot cfg disk).trans backs.recovered)
  refine ⟨?_, ?_, lastApplied, commitIndex, data⟩
  · rw [log, Log.snapshotIndex, backs.marker]
    simp [Disk.covered, found]
  · rw [log, Log.snapshotTerm, backs.marker]
    simp [Disk.coveredTerm, found]

namespace Process

variable {codec : Codec} {cfg : Config} {threshold now : Nat} {process after : Process}
  {input : Input} {disk : Disk}

/-- What the data directory can hold when a process crashes during an operation:
nothing written yet, some of the writes made, all of them made. -/
def crashes (process after : Process) : List Disk :=
  process.node.disk :: process.node.passing after.node ++ [after.node.disk]

/-- The memory at the start of an operation, after the term check of a handler, and
at the end. -/
def points (process : Process) (input : Input) (after : Process) : List PersistedState :=
  [process.node.memory, (process.midpoint input).memory, after.node.memory]

theorem backed_step (backed : process.node.Backed)
    (stepped : process.step codec now input = some after) : after.node.Backed := by
  have middle := backed.persists (process.persists_midpoint input)
  rcases staged_step stepped with persists | ⟨_, file, compacts⟩
  · exact middle.persists persists
  · exact middle.compacts compacts

/-- In the middle of an operation the data directory backs the memory after the term
check, or, if a snapshot has been saved, already the memory at the end. -/
theorem backs_passing (backed : process.node.Backed)
    (stepped : process.step codec now input = some after)
    (member : disk ∈ process.node.passing after.node) :
    disk.Backs (process.midpoint input).memory ∨
      process.Compacting input ∧ disk.Backs after.node.memory := by
  have first := process.persists_midpoint input
  have middle := backed.persists first
  rcases staged_step stepped with second | ⟨compacting, file, second⟩
  · rw [RaftNode.passing_of_persists first second member]
    exact .inl middle
  · rcases RaftNode.passing_of_compacts first second member with rfl | rfl
    · exact .inl middle
    · exact .inr ⟨compacting, middle.saved second⟩

theorem backs_crashes (backed : process.node.Backed)
    (stepped : process.step codec now input = some after) (member : disk ∈ process.crashes after) :
    ∃ memory ∈ process.points input after, disk.Backs memory := by
  simp only [crashes, List.cons_append, List.mem_cons, List.mem_append, List.not_mem_nil,
    or_false] at member
  rcases member with rfl | passing | rfl
  · exact ⟨_, by simp [points], backed⟩
  · rcases backs_passing backed stepped passing with middle | ⟨_, last⟩
    · exact ⟨_, by simp [points], middle⟩
    · exact ⟨_, by simp [points], last⟩
  · exact ⟨_, by simp [points], backed_step backed stepped⟩

theorem backed_lives {moves : List (Move Process Incident)}
    {allowed : Process → Incident → Prop}
    (trace : (lives codec cfg threshold).Trace allowed (start codec cfg threshold 0 {}) moves
      process) : process.node.Backed := by
  refine trace.record (fun _ process => process.node.Backed) (Disk.Backs.empty.boot cfg) ?_
  intro _ process incident after backed _ stepped
  cases incident with
  | input now input => exact backed_step backed stepped
  | crash =>
    cases stepped
    exact Disk.Backs.boot backed cfg
  | interrupt now input writes =>
    simp only [lives, Option.bind_eq_bind, Option.bind_eq_some_iff] at stepped
    obtain ⟨reached, moved, disk, torn, built⟩ := stepped
    cases built
    have passing : disk ∈ process.crashes reached := by
      simp [crashes, List.mem_of_getElem? torn]
    obtain ⟨memory, _, backs⟩ := backs_crashes backed moved passing
    exact backs.boot cfg

/-- After a crash at any point `loadState` and `restoreFromSnapshot` recover a term,
vote and log the memory had at the start, after the term check or at the end of the
operation in progress, and the node stands where its snapshot file ends. Between two
operations they recover exactly the memory. -/
theorem crash_recovery {moves : List (Move Process Incident)}
    (trace : (lives codec cfg threshold).Trace (fun _ _ => True) (start codec cfg threshold 0 {})
      moves process) :
    (boot cfg process.node.disk).memory = process.node.memory ∧
    (∀ file, process.node.disk.snapshot = some file →
      StandsAt (boot cfg process.node.disk) file) ∧
    ∀ now input after, process.step codec now input = some after →
      ∀ disk ∈ process.crashes after,
        (boot cfg disk).memory ∈ process.points input after ∧
        ∀ file, disk.snapshot = some file → StandsAt (boot cfg disk) file := by
  have backed := backed_lives trace
  refine ⟨?_, fun file found => standsAt_boot cfg backed found, ?_⟩
  · rw [memory_boot, Disk.Backs.recovered backed]
  · intro now input after stepped disk member
    obtain ⟨memory, point, backs⟩ := backs_crashes backed stepped member
    refine ⟨?_, fun file found => standsAt_boot cfg backs found⟩
    rw [memory_boot, backs.recovered]
    exact point

/-- A follower about to save a snapshot at index 2. A crash right after the file is
saved recovers the log as `TakeSnapshot` would have left it. -/
theorem crash_recovery_follower :
    ∃ moves process after, (lives Codec.sample followerConfig 1).Trace (fun _ _ => True)
        (follower 1) moves process ∧
      process.step Codec.sample 0 (.readApplyCh true) = some after ∧
      (∃ disk ∈ process.node.passing after.node,
        (boot followerConfig disk).memory ∈ process.points (.readApplyCh true) after ∧
        (boot followerConfig disk).log ≠ process.node.log) := by
  obtain ⟨moves, process, trace, checked⟩ :=
    (lives Codec.sample followerConfig 1).exists_trace (fun _ _ => True) (follower 1)
      (joinApplied ++ [.input 0 (.readApplyCh true), .input 0 (.readApplyCh true),
        .input 0 (.readApplyCh true)])
      (fun _ process => (process.step Codec.sample 0 (.readApplyCh true)).any fun after =>
        (process.node.passing after.node).any fun disk =>
          (boot followerConfig disk).log ≠ process.node.log) (by decide +kernel)
  obtain ⟨after, stepped, torn⟩ := (Option.any_eq_true _ _).mp checked
  obtain ⟨disk, passing, compacted⟩ := List.any_eq_true.mp torn
  obtain ⟨_, _, recovery⟩ := crash_recovery trace
  have found := recovery 0 _ _ stepped disk (by simp [crashes, passing])
  exact ⟨moves, process, after, trace, stepped, disk, passing, found.1,
    of_decide_eq_true compacted⟩

end Process

end RaftGo.KvStore
