import RaftGo.KvStore.Runs

/-! Snapshots against what was applied. `lastApplied` moves before the state
machine does, and `readApplyCh` reads the map and the index under two different
locks; a snapshot is coherent when no entry slips in between. -/

namespace RaftGo.KvStore

open Raft Library

/-- The loop has taken an entry that the state machine has not seen yet. -/
def ApplyLoop.midEntry : ApplyLoop → Bool
  | .apply _ => true
  | _ => false

/-- The entries the apply loop took in a run, in order. -/
def taken (moves : List (Move Process (Nat × Input))) : List LogEntry :=
  moves.filterMap fun move => move.before.taken? move.event.2

theorem taken_snoc (moves : List (Move Process (Nat × Input)))
    (move : Move Process (Nat × Input)) :
    taken (moves ++ [move]) = taken moves ++ (move.before.taken? move.event.2).toList := by
  unfold taken
  cases found : move.before.taken? move.event.2 <;> simp [found]

/-- The file is the map after the first `file.index` entries. -/
structure Coherent (codec : Codec) (entries : List LogEntry) (file : SnapshotFile) : Prop where
  covered : file.index ≤ entries.length
  data : file.data = codec.encodeData (replay codec (entries.take file.index))

/-- The snapshot file of a data directory covers exactly these entries. -/
def Covers (codec : Codec) (entries : List LogEntry) (disk : Disk) : Prop :=
  match disk.snapshot with
  | none => entries = []
  | some file => file.index = entries.length ∧ file.data = codec.encodeData (replay codec entries)

def Input.reads : Input → Bool
  | .readApplyCh _ => true
  | _ => false

def Input.installs : Input → Bool
  | .installSnapshot _ _ => true
  | _ => false

/-- `kv.Snapshot()` runs while no entry is on its way to the state machine, and
until `TakeSnapshot` returns the apply loop takes membership changes only. -/
def Quiescent (process : Process) (input : Input) : Prop :=
  (input.reads = true → process.reader = .capture → process.loop.midEntry = false) ∧
    (process.reader.takesSnapshot = true → ∀ entry ∈ process.taken? input, entry.isConfig = true)

instance (process : Process) (input : Input) : Decidable (Quiescent process input) :=
  inferInstanceAs (Decidable (_ ∧ _))

namespace Coherent

variable {codec : Codec} {entries : List LogEntry} {file : SnapshotFile}

theorem append (coherent : Coherent codec entries file) (more : List LogEntry) :
    Coherent codec (entries ++ more) file where
  covered := Nat.le_trans coherent.covered (by simp)
  data := by
    rw [List.take_append_of_le_length coherent.covered]
    exact coherent.data

theorem full (index : file.index = entries.length)
    (data : file.data = codec.encodeData (replay codec entries)) : Coherent codec entries file where
  covered := index.le
  data := by rw [index, List.take_length, data]

end Coherent

/-- How the map relates to the entries taken so far. -/
def ApplyLoop.Reflects (codec : Codec) (entries : List LogEntry) (data : Data) : ApplyLoop → Prop
  | .apply entry => entry.isConfig = false ∧
      ∃ earlier, entries = earlier ++ [entry] ∧ data = replay codec earlier
  | .restore _ => False
  | _ => data = replay codec entries

structure Tracks (codec : Codec) (entries : List LogEntry) (process : Process) : Prop where
  count : process.node.lastApplied = entries.length
  quiet : process.node.snapshotNotifyC = none
  machine : process.loop.Reflects codec entries process.data
  captured : ∀ data, process.reader = .take data →
    data = codec.encodeData (replay codec entries) ∧ process.loop.midEntry = false
  saved : ∀ file ∈ process.node.snapshots, Coherent codec entries file

namespace Tracks

variable {codec : Codec} {entries : List LogEntry} {process after : Process} {now : Nat}

/-- Unless an entry is held back, the map is that of all entries taken. -/
theorem current (tracks : Tracks codec entries process) (settled : process.loop.midEntry = false) :
    process.data = replay codec entries := by
  have machine := tracks.machine
  cases place : process.loop with
  | apply entry => simp [place, ApplyLoop.midEntry] at settled
  | restore snap => simp [place, ApplyLoop.Reflects] at machine
  | select => simpa [place, ApplyLoop.Reflects] using machine
  | relock => simpa [place, ApplyLoop.Reflects] using machine
  | deliver msg => simpa [place, ApplyLoop.Reflects] using machine

theorem undisturbed (tracks : Tracks codec entries process) (same : process.Undisturbed after) :
    Tracks codec entries after where
  count := same.node.lastApplied.trans tracks.count
  quiet := same.node.snapshotNotifyC.trans tracks.quiet
  machine := by
    rw [same.loop, same.data]
    exact tracks.machine
  captured := by
    rw [same.reader, same.loop]
    exact tracks.captured
  saved file member := tracks.saved file (same.node.snapshots file member)

theorem advance (tracks : Tracks codec entries process)
    (keeps : process.node.KeepsApplied after.node) (reader : after.reader = process.reader)
    (settled : after.loop.midEntry = false) (machine : after.loop.Reflects codec entries after.data) :
    Tracks codec entries after where
  count := keeps.lastApplied.trans tracks.count
  quiet := keeps.snapshotNotifyC.trans tracks.quiet
  machine := machine
  captured data holding := ⟨(tracks.captured data (reader ▸ holding)).1, settled⟩
  saved file member := tracks.saved file (keeps.snapshots file member)

theorem applyLoop {branch : Branch} (tracks : Tracks codec entries process)
    (calm : Quiescent process (.applyLoop branch))
    (stepped : process.applyLoop codec now branch = some after) :
    Tracks codec (entries ++ (process.taken? (.applyLoop branch)).toList) after := by
  have machine := tracks.machine
  cases Process.applyLoop_cases stepped with
  | receiveSnapshot snap idle ready => cases tracks.quiet.symm.trans ready
  | receiveCommit idle ready =>
    rw [idle] at machine
    rw [Process.taken?_elsewhere (by simp [idle]), Option.toList_none, List.append_nil]
    exact tracks.advance ⟨rfl, rfl, fun _ => id⟩ rfl rfl machine
  | restore snap holding =>
    rw [holding] at machine
    exact machine.elim
  | drained locked done =>
    rw [locked] at machine
    simp only [Process.taken?, locked, Nat.not_lt.mpr done, and_false, ↓reduceIte,
      Option.toList_none, List.append_nil]
    exact tracks.advance ⟨rfl, rfl, fun _ => id⟩ rfl rfl machine
  | configure locked behind config =>
    have took := Process.taken?_behind branch locked behind
    rw [took, Option.toList_some]
    -- a membership change leaves the map alone, captured or not
    have unchanged : replay codec (entries ++
        [process.node.log.get (process.node.lastApplied + 1)]) = replay codec entries := by
      rw [replay_snoc, if_pos config]
    have keeps := RaftNode.keepsApplied_applyConfigEntry
      { process.node with lastApplied := process.node.lastApplied + 1 } now
      (process.node.log.get (process.node.lastApplied + 1))
    rw [locked] at machine
    exact {
      count := keeps.lastApplied.trans (by simp [tracks.count])
      quiet := keeps.snapshotNotifyC.trans tracks.quiet
      machine := machine.trans unchanged.symm
      captured := fun data holding => ⟨unchanged ▸ (tracks.captured data holding).1, rfl⟩
      saved := fun file member => (tracks.saved file (keeps.snapshots file member)).append _ }
  | take locked behind command =>
    have took := Process.taken?_behind branch locked behind
    rw [took, Option.toList_some]
    rw [locked] at machine
    refine {
      count := by simp [tracks.count]
      quiet := tracks.quiet
      machine := ⟨command, entries, rfl, machine⟩
      captured := fun data holding => ?_
      saved := fun file member => (tracks.saved file member).append _ }
    have pending : process.reader.takesSnapshot = true := congrArg Reader.takesSnapshot holding
    have config := calm.2 pending _ took
    rw [command] at config
    cases config
  | apply entry holding =>
    rw [holding] at machine
    obtain ⟨command, earlier, rfl, data⟩ := machine
    rw [Process.taken?_elsewhere (by simp [holding]), Option.toList_none, List.append_nil]
    refine tracks.advance ⟨rfl, rfl, fun _ => id⟩ rfl rfl ?_
    simp [ApplyLoop.Reflects, replay_snoc, command, data]
  | deliver msg blocked room =>
    rw [blocked] at machine
    rw [Process.taken?_elsewhere (by simp [blocked]), Option.toList_none, List.append_nil]
    cases kind : msg.isSnapshot <;>
      exact tracks.advance ⟨rfl, rfl, fun _ => id⟩ rfl (by simp [ApplyLoop.midEntry])
        (by simpa [kind, ApplyLoop.Reflects] using machine)

theorem readApplyCh {saved : Bool} (tracks : Tracks codec entries process)
    (calm : Quiescent process (.readApplyCh saved))
    (stepped : process.readApplyCh codec saved = some after) : Tracks codec entries after := by
  cases Process.readApplyCh_cases stepped with
  | receive msg rest idle ready => exact { tracks with captured := fun data holding => by cases holding }
  | routeSnapshot index term data holding =>
    exact { tracks with captured := fun data holding => by cases holding }
  | routeEntry index term command result reader holding next =>
    obtain ⟨pending, calls, routed⟩ := Process.routeEntry_eq
      { process with applied := process.applied + 1 } index term result
    rw [routed]
    refine { tracks with captured := fun data taking => ?_ }
    have taking : reader = .take data := taking
    rcases next with rfl | rfl <;> cases taking
  | capture due =>
    have settled := calm.1 rfl due
    refine { tracks with captured := fun data holding => ?_ }
    cases holding
    exact ⟨congrArg codec.encodeData (tracks.current settled), settled⟩
  | take data holding =>
    obtain ⟨lastApplied, notify, files⟩ := process.node.takeSnapshot_saves data saved
    refine {
      count := lastApplied.trans tracks.count
      quiet := notify.trans tracks.quiet
      machine := tracks.machine
      captured := fun data holding => by cases holding
      saved := fun file member => ?_ }
    rcases files file member with old | ⟨index, content⟩
    · exact tracks.saved file old
    · exact .full (index.trans tracks.count) (content.trans (tracks.captured data holding).1)

theorem step {event : Nat × Input} (tracks : Tracks codec entries process)
    (noInstall : event.2.installs = false) (calm : Quiescent process event.2)
    (stepped : (Process.system codec).step process event = some after) :
    Tracks codec (entries ++ (process.taken? event.2).toList) after := by
  obtain ⟨now, input⟩ := event
  cases kind : input.background with
  | true =>
    have none : process.taken? input = none := by cases input <;> first | rfl | cases kind
    rw [none, Option.toList_none, List.append_nil]
    exact tracks.undisturbed (Process.undisturbed_step kind stepped)
  | false =>
    cases input with
    | applyLoop branch => exact tracks.applyLoop calm stepped
    | readApplyCh saved =>
      rw [show process.taken? (.readApplyCh saved) = none from rfl, Option.toList_none,
        List.append_nil]
      exact tracks.readApplyCh calm stepped
    | installSnapshot args saved => cases noInstall
    | _ => cases kind

theorem start {disk : Disk} (cfg : Config) (threshold boots : Nat)
    (covers : Covers codec entries disk) :
    Tracks codec entries (Process.start codec cfg threshold boots disk) := by
  obtain ⟨lastApplied, notify, files⟩ := boot_applied cfg disk
  unfold Covers at covers
  cases found : disk.snapshot with
  | none =>
    simp only [found, Disk.covered] at covers lastApplied files
    subst covers
    exact {
      count := lastApplied
      quiet := notify
      machine := by simp [Process.start, ApplyLoop.Reflects, found, replay]
      captured := fun data holding => by cases holding
      saved := fun file member => by simp [Process.start, files] at member }
  | some snapshot =>
    simp only [found, Disk.covered] at covers lastApplied files
    refine {
      count := lastApplied.trans covers.1
      quiet := notify
      machine := ?_
      captured := fun data holding => by cases holding
      saved := fun file member => ?_ }
    · simp only [Process.start, ApplyLoop.Reflects, found, covers.2, restore_encodeData, covers.1]
      split
      · rename_i empty
        rw [List.length_eq_zero_iff.mp empty]
        rfl
      · rfl
    · have same : file = snapshot := by simpa [Process.start, files] using member
      subst same
      exact .full covers.1 covers.2

end Tracks

/-- Every snapshot file a process saves is the map after exactly the entries its
index counts, if no entry slips between `kv.Snapshot()` and `TakeSnapshot`. -/
theorem snapshot_coherence {codec : Codec} {cfg : Config} {threshold boots : Nat} {disk : Disk}
    {base : List LogEntry} (covers : Covers codec base disk)
    {moves : List (Move Process (Nat × Input))} {process : Process}
    (trace : (Process.system codec).Trace
      (fun process event => event.2.installs = false ∧ Quiescent process event.2)
      (Process.start codec cfg threshold boots disk) moves process) :
    ∀ file ∈ process.node.snapshots, Coherent codec (base ++ taken moves) file := by
  suffices tracks : Tracks codec (base ++ taken moves) process from tracks.saved
  refine trace.record (fun moves process => Tracks codec (base ++ taken moves) process) ?_ ?_
  · simpa [taken] using Tracks.start cfg threshold boots covers
  · intro moves process event after tracks permitted stepped
    have next := tracks.step permitted.1 permitted.2 stepped
    rwa [List.append_assoc, ← taken_snoc moves ⟨process, event, after⟩] at next

/-- Both entries arrive committed, and the first one is applied and delivered:
`readApplyCh` is about to call `kv.Snapshot()`. -/
def firstEntryRouted : List (Nat × Input) := [
  (0, .appendEntries {
    term := 1
    leaderID := "node2"
    prevLogIndex := 0
    prevLogTerm := 0
    entries := setThenDelete
    leaderCommit := 2 }),
  (0, .applyLoop .commit),
  (0, .applyLoop .commit),
  (0, .applyLoop .commit),
  (0, .applyLoop .commit),
  (0, .readApplyCh true),
  (0, .readApplyCh true)]

theorem snapshot_coherence_follower :
    ∃ moves process, (Process.system Codec.sample).Trace
        (fun process event => event.2.installs = false ∧ Quiescent process event.2)
        (follower 1) moves process ∧
      process.node.snapshots ≠ [] ∧
      ∀ file ∈ process.node.snapshots, Coherent Codec.sample ([] ++ taken moves) file := by
  obtain ⟨moves, process, trace, checked⟩ := (Process.system Codec.sample).exists_trace
    (fun process event => event.2.installs = false ∧ Quiescent process event.2) (follower 1)
    (firstEntryRouted ++ [(0, .readApplyCh true), (0, .readApplyCh true)])
    (fun _ process => !process.node.snapshots.isEmpty) (by decide +kernel)
  have covers : Covers Codec.sample [] {} := rfl
  exact ⟨moves, process, trace, by simpa using checked, snapshot_coherence covers trace⟩

/-- The apply loop takes the second entry before the map is read: the snapshot is
saved under index 2 without that entry. -/
theorem snapshot_misses_entry :
    ∃ moves process, (Process.system Codec.sample).Trace
        (fun _ event => event.2.installs = false) (follower 1) moves process ∧
      ∃ file ∈ process.node.snapshots, ¬ Coherent Codec.sample (taken moves) file := by
  obtain ⟨moves, process, trace, checked⟩ := (Process.system Codec.sample).exists_trace
    (fun _ event => event.2.installs = false) (follower 1)
    (firstEntryRouted ++ [(0, .applyLoop .commit), (0, .readApplyCh true), (0, .readApplyCh true)])
    (fun moves process => taken moves = setThenDelete &&
      process.node.snapshots.any fun file => file.index = 2 && file.data = [])
    (by decide +kernel)
  simp only [Bool.and_eq_true, List.any_eq_true, decide_eq_true_eq] at checked
  obtain ⟨took, file, member, index, content⟩ := checked
  refine ⟨moves, process, trace, file, member, fun coherent => ?_⟩
  have data := coherent.data
  rw [content, index, took] at data
  have deleted : replay Codec.sample (setThenDelete.take 2) ≠ (setOp.execute ∅).1 := by
    decide +kernel
  exact Codec.encodeData_sample deleted data.symm

end RaftGo.KvStore
