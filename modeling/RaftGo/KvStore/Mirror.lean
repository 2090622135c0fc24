import RaftGo.KvStore.Coherence
import RaftGo.KvStore.Ordering
import RaftGo.KvStore.Recovery

/-! The map of a process against the history its node follows. At any moment the map is
that of some first part of the history, and once the apply loop rests, of as many entries
as `lastApplied` counts; so are the snapshots the process takes and sends. Three races
would break this: a snapshot taken while an entry is on its way, an entry taken while a
snapshot waits, and a snapshot that arrives behind what has been applied. -/

namespace RaftGo

open Raft KvStore Library

namespace Raft.RaftNode

variable {node middle after : RaftNode} {now : Nat} {part : Part} {parts : List Part}

/-- The snapshot in memory and the marker of the log are the same. -/
structure KeepsSnapshot (node after : RaftNode) : Prop where
  snapshotData : after.snapshotData = node.snapshotData
  sentinel : after.log.sentinel = node.log.sentinel

theorem KeepsSnapshot.trans (first : node.KeepsSnapshot middle)
    (second : middle.KeepsSnapshot after) : node.KeepsSnapshot after where
  snapshotData := second.snapshotData.trans first.snapshotData
  sentinel := second.sentinel.trans first.sentinel

theorem KeepsSnapshot.snapshotIndex (keeps : node.KeepsSnapshot after) :
    after.log.snapshotIndex = node.log.snapshotIndex :=
  congrArg LogEntry.index keeps.sentinel

theorem Change.keepsSnapshot (change : Change now node part after)
    (other : part ∉ [.compaction, .installation]) : node.KeepsSnapshot after := by
  cases change with
  | maybeCommit =>
    obtain ⟨commitIndex, signal, committed⟩ := node.maybeCommit_eq
    rw [committed]
    exact ⟨rfl, rfl⟩
  | advanceCommit leaderCommit =>
    obtain ⟨commitIndex, signal, committed⟩ := node.advanceCommit_eq leaderCommit
    rw [committed]
    exact ⟨rfl, rfl⟩
  | merge entries => exact ⟨rfl, node.log.sentinel_mergeEntries entries⟩
  | compact | install => simp at other
  | _ => exact ⟨rfl, rfl⟩

theorem Changes.keepsSnapshot (changes : Changes now parts node after)
    (others : ∀ part ∈ parts, part ∉ [.compaction, .installation]) : node.KeepsSnapshot after :=
  changes.keeps (fun _ => ⟨rfl, rfl⟩) .trans fun member change =>
    change.keepsSnapshot (others _ member)

/-- What a node shows of a history of commands: behind its marker, up to `commitIndex`, the
entries of the history. -/
structure Shows (node : RaftNode) (history : History) : Prop where
  backed : node.Backed
  bottom : node.log.snapshotIndex ≤ node.lastApplied
  applied : node.lastApplied ≤ node.commitIndex
  bounded : node.commitIndex ≤ history.entries.length
  command : ∀ index, (node.log.get index).isConfig = false
  entry : ∀ index, node.log.snapshotIndex < index → index ≤ node.commitIndex →
    history.entries[index - 1]? = some (node.log.get index)

theorem Shows.next {history : History} (shows' : node.Shows history)
    (behind : node.lastApplied < node.commitIndex) :
    history.entries[node.lastApplied]? = some (node.log.get (node.lastApplied + 1)) :=
  shows'.entry (node.lastApplied + 1) (Nat.lt_succ_of_le shows'.bottom) behind

end Raft.RaftNode

namespace KvStore

/-- A snapshot that is to be installed is not behind what the node has applied. -/
def Ahead (process : Process) : Input → Prop
  | .installSnapshot args _ => process.node.log.snapshotIndex < args.lastIncludedIndex →
      process.node.lastApplied ≤ args.lastIncludedIndex
  | _ => True

/-- None of the three races happens. -/
def Unhurried (process : Process) (input : Input) : Prop :=
  Quiescent process input ∧ Settled process input ∧ Ahead process input

instance (process : Process) (input : Input) : Decidable (Ahead process input) := by
  cases input with
  | installSnapshot args saved => exact inferInstanceAs (Decidable (_ → _))
  | _ => exact isTrue trivial

instance (process : Process) (input : Input) : Decidable (Unhurried process input) :=
  inferInstanceAs (Decidable (_ ∧ _ ∧ _))

/-- Bytes that decode to the map after the first entries of the history. -/
def Faithful (codec : Codec) (history : History) (count : Nat) (data : Bytes) : Prop :=
  data = codec.encodeData (stateAt codec history count)

/-- How the map relates to the history, given where the loop stands. -/
def ApplyLoop.Mirrors (codec : Codec) (history : History) (lastApplied : Nat)
    (waiting : Option SnapshotToApply) (data : Data) : ApplyLoop → Prop
  | .apply entry => ∃ count, history.entries[count]? = some entry ∧ entry.isConfig = false ∧
      data = stateAt codec history count ∧ count < lastApplied ∧
      (waiting = none → lastApplied = count + 1)
  | .restore snap => (∃ count ≤ lastApplied, data = stateAt codec history count) ∧
      ∃ count ≤ lastApplied, Faithful codec history count snap.data ∧
        (waiting = none → count = lastApplied)
  | _ => ∃ count ≤ lastApplied, data = stateAt codec history count ∧
      (waiting = none → count = lastApplied)

/-- A snapshot has been installed that the state machine has not been restored from yet. -/
def Process.awaitsRestore (process : Process) : Bool :=
  process.node.snapshotNotifyC.isSome ||
    match process.loop with
    | .restore _ => true
    | _ => false

structure Mirrors (codec : Codec) (history : History) (process : Process) : Prop where
  machine : process.loop.Mirrors codec history process.node.lastApplied
    process.node.snapshotNotifyC process.data
  pending : ∀ snap, process.node.snapshotNotifyC = some snap →
    Faithful codec history process.node.lastApplied snap.data
  installed : process.awaitsRestore = true →
    process.node.lastApplied ≤ process.node.log.snapshotIndex
  /-- What `kv.Snapshot()` returned is up to date, or `TakeSnapshot` will not use it. -/
  captured : ∀ data, process.reader = .take data →
    Faithful codec history process.node.lastApplied data ∨
      process.node.lastApplied ≤ process.node.log.snapshotIndex
  files : ∀ file ∈ process.node.snapshots, Faithful codec history file.index file.data
  memory : 0 < process.node.log.snapshotIndex →
    Faithful codec history process.node.log.snapshotIndex process.node.snapshotData

section Reading

variable {codec : Codec} {history : History} {lastApplied : Nat}
  {waiting : Option SnapshotToApply} {data : Data} {loop : ApplyLoop}

theorem ApplyLoop.Mirrors.install (mirrors : loop.Mirrors codec history lastApplied waiting data)
    {index : Nat} (ahead : lastApplied ≤ index) (snap : SnapshotToApply) :
    loop.Mirrors codec history index (some snap) data := by
  cases loop with
  | apply entry =>
    obtain ⟨count, found, command, current, behind, _⟩ := mirrors
    exact ⟨count, found, command, current, behind.trans_le ahead, nofun⟩
  | restore older =>
    obtain ⟨⟨count, within, current⟩, covered, within', faithful, _⟩ := mirrors
    exact ⟨⟨count, within.trans ahead, current⟩, covered, within'.trans ahead, faithful, nofun⟩
  | select | relock | deliver =>
    obtain ⟨count, within, current, _⟩ := mirrors
    exact ⟨count, within.trans ahead, current, nofun⟩

end Reading

namespace Mirrors

variable {codec : Codec} {history : History} {process after : Process} {now : Nat} {input : Input}

/-- When the loop is between two entries and no snapshot is under way, the map is that of
`lastApplied` entries. -/
theorem current (mirrors : Mirrors codec history process)
    (between : process.loop.midEntry = false) (restored : process.awaitsRestore = false) :
    process.data = stateAt codec history process.node.lastApplied := by
  have machine := mirrors.machine
  simp only [Process.awaitsRestore, Bool.or_eq_false_iff, Option.isSome_eq_false_iff,
    Option.isNone_iff_eq_none] at restored
  obtain ⟨none, elsewhere⟩ := restored
  cases place : process.loop with
  | apply entry => simp [place, ApplyLoop.midEntry] at between
  | restore snap => simp [place] at elsewhere
  | select | relock | deliver =>
    rw [place] at machine
    obtain ⟨count, _, current, last⟩ := machine
    rw [current, last none]

theorem undisturbed (mirrors : Mirrors codec history process) (same : process.Undisturbed after)
    (keeps : process.node.KeepsSnapshot after.node) : Mirrors codec history after := by
  have lastApplied := same.node.lastApplied
  have notify := same.node.snapshotNotifyC
  have marker := keeps.snapshotIndex
  refine ⟨?_, ?_, ?_, ?_, fun file member => mirrors.files file (same.node.snapshots file member),
    ?_⟩
  · rw [same.loop, same.data, lastApplied, notify]
    exact mirrors.machine
  · rw [lastApplied, notify]
    exact mirrors.pending
  · rw [Process.awaitsRestore, same.loop, lastApplied, notify, marker]
    exact mirrors.installed
  · rw [same.reader, lastApplied, marker]
    exact mirrors.captured
  · rw [marker, keeps.snapshotData]
    exact mirrors.memory

theorem advance (mirrors : Mirrors codec history process)
    (same : process.node.KeepsApplied after.node) (keeps : process.node.KeepsSnapshot after.node)
    (reader : after.reader = process.reader) (elsewhere : ∀ snap, after.loop ≠ .restore snap)
    (machine : after.loop.Mirrors codec history process.node.lastApplied
      process.node.snapshotNotifyC after.data) : Mirrors codec history after := by
  have lastApplied := same.lastApplied
  have marker := keeps.snapshotIndex
  have awaits (waiting : after.awaitsRestore = true) : process.awaitsRestore = true := by
    simp only [Process.awaitsRestore, Bool.or_eq_true] at waiting ⊢
    rcases waiting with notified | restoring
    · exact .inl (same.snapshotNotifyC ▸ notified)
    · cases restoring
  refine ⟨?_, ?_, ?_, ?_, fun file member => mirrors.files file (same.snapshots file member), ?_⟩
  · rw [lastApplied, same.snapshotNotifyC]
    exact machine
  · rw [lastApplied, same.snapshotNotifyC]
    exact mirrors.pending
  · rw [lastApplied, marker]
    exact fun waiting => mirrors.installed (awaits waiting)
  · rw [reader, lastApplied, marker]
    exact mirrors.captured
  · rw [marker, keeps.snapshotData]
    exact mirrors.memory

/-- With the races excluded the loop takes commands only, and none of them while a snapshot
waits or is being taken. -/
theorem untaken {entry : LogEntry} (unhurried : Unhurried process input)
    (took : process.taken? input = some entry) (command : entry.isConfig = false) :
    process.node.snapshotNotifyC = none ∧ process.reader.takesSnapshot = false := by
  obtain ⟨⟨_, calm⟩, settled, _⟩ := unhurried
  constructor
  · by_contra waiting
    have config := settled (Option.isSome_iff_ne_none.mpr waiting) entry took
    rw [command] at config
    cases config
  · by_contra taking
    have config := calm (by simpa using taking) entry took
    rw [command] at config
    cases config

theorem applyLoop {branch : Branch} (mirrors : Mirrors codec history process)
    (shows' : process.node.Shows history) (unhurried : Unhurried process (.applyLoop branch))
    (stepped : process.applyLoop codec now branch = some after) : Mirrors codec history after := by
  have machine := mirrors.machine
  cases Process.applyLoop_cases stepped with
  | receiveSnapshot snap idle ready =>
    rw [idle] at machine
    obtain ⟨count, within, current, _⟩ := machine
    have awaits : process.awaitsRestore = true := by simp [Process.awaitsRestore, ready]
    refine ⟨⟨⟨count, within, current⟩, _, Nat.le_refl _, mirrors.pending snap ready, fun _ => rfl⟩,
      nofun, fun _ => mirrors.installed awaits, mirrors.captured, mirrors.files, mirrors.memory⟩
  | receiveCommit idle ready =>
    rw [idle] at machine
    exact mirrors.advance ⟨rfl, rfl, fun _ => id⟩ ⟨rfl, rfl⟩ rfl nofun machine
  | restore snap holding =>
    rw [holding] at machine
    obtain ⟨_, count, within, faithful, last⟩ := machine
    refine mirrors.advance ⟨rfl, rfl, fun _ => id⟩ ⟨rfl, rfl⟩ rfl nofun
      ⟨count, within, ?_, last⟩
    rw [faithful, restore_encodeData]
  | drained locked done =>
    rw [locked] at machine
    exact mirrors.advance ⟨rfl, rfl, fun _ => id⟩ ⟨rfl, rfl⟩ rfl nofun machine
  | configure locked behind config =>
    rw [shows'.command] at config
    cases config
  | take locked behind command =>
    obtain ⟨none, idle⟩ := untaken unhurried (Process.taken?_behind branch locked behind) command
    rw [locked] at machine
    obtain ⟨count, _, current, last⟩ := machine
    refine ⟨⟨count, ?_, command, current, ?_, fun _ => ?_⟩, ?_, ?_, ?_, mirrors.files,
      mirrors.memory⟩
    · rw [last none]
      exact shows'.next behind
    · rw [last none]
      exact Nat.lt_succ_self _
    · rw [last none]
    · intro snap waiting
      cases none.symm.trans waiting
    · simp [Process.awaitsRestore, none]
    · intro data holding
      simp [show process.reader = .take data from holding, Reader.takesSnapshot] at idle
  | apply entry holding =>
    rw [holding] at machine
    obtain ⟨count, found, command, current, behind, last⟩ := machine
    refine mirrors.advance ⟨rfl, rfl, fun _ => id⟩ ⟨rfl, rfl⟩ rfl nofun
      ⟨count + 1, behind, ?_, fun none => (last none).symm⟩
    rw [stateAt_succ codec found, if_neg (by simp [command]), ← current]
  | deliver msg blocked room =>
    rw [blocked] at machine
    refine mirrors.advance ⟨rfl, rfl, fun _ => id⟩ ⟨rfl, rfl⟩ rfl ?_ ?_
    · cases msg.isSnapshot <;> exact nofun
    · cases msg.isSnapshot <;> exact machine

theorem readApplyCh {saved : Bool} (mirrors : Mirrors codec history process)
    (unhurried : Unhurried process (.readApplyCh saved))
    (stepped : process.readApplyCh codec saved = some after) : Mirrors codec history after := by
  cases Process.readApplyCh_cases stepped with
  | receive msg rest idle ready => exact { mirrors with captured := nofun }
  | routeSnapshot index term data holding =>
    exact { mirrors with captured := nofun }
  | routeEntry index term command result reader holding next =>
    obtain ⟨pending, calls, routed⟩ := Process.routeEntry_eq
      { process with applied := process.applied + 1 } index term result
    rw [routed]
    refine { mirrors with captured := fun data taking => ?_ }
    have taking : reader = .take data := taking
    rcases next with rfl | rfl <;> cases taking
  | capture due =>
    have between := unhurried.1.1 rfl due
    refine { mirrors with captured := fun data holding => ?_ }
    cases holding
    cases awaits : process.awaitsRestore with
    | true => exact .inr (mirrors.installed awaits)
    | false => exact .inl (congrArg codec.encodeData (mirrors.current between awaits))
  | take data holding =>
    rcases process.node.takeSnapshot_cases data saved with same | ⟨ahead, term, built⟩
    · rw [same]
      exact { mirrors with captured := nofun }
    · have faithful : Faithful codec history process.node.lastApplied data := by
        rcases mirrors.captured data holding with faithful | covered
        · exact faithful
        · omega
      obtain ⟨_, _, files⟩ := process.node.takeSnapshot_saves data saved
      have marker : (process.node.log.compactTo process.node.lastApplied term).snapshotIndex =
          process.node.lastApplied := by
        rw [Log.snapshotIndex_compactTo, Nat.max_eq_right ahead.le]
      rw [built] at files ⊢
      refine ⟨mirrors.machine, mirrors.pending, fun _ => marker.ge, nofun,
        fun file member => ?_, fun _ => ?_⟩
      · rcases files file member with old | ⟨index, content⟩
        · exact mirrors.files file old
        · rw [index, content]
          exact faithful
      · exact marker.symm ▸ faithful

/-- `HandleInstallSnapshot`: the snapshot is ignored, or the node jumps to it. -/
theorem handleInstallSnapshot {args : InstallSnapshotArgs} (saved : Bool)
    (mirrors : Mirrors codec history process)
    (unhurried : Unhurried process (.installSnapshot args saved))
    (faithful : 0 < args.lastIncludedIndex →
      Faithful codec history args.lastIncludedIndex args.data) :
    Mirrors codec history
      (process.withNode (process.node.handleInstallSnapshot args saved).1) := by
  obtain ⟨relieved, before, outcome⟩ := process.node.handleInstallSnapshot_cases args saved
  have relieving : RaftNode.Changes 0 [.role] process.node relieved := .relieved before
  have kept := relieving.keepsApplied (by simp)
  have marked := relieving.keepsSnapshot (by simp)
  rcases outcome with same | ⟨ahead, built⟩
  · rw [same]
    exact mirrors.undisturbed ⟨kept, rfl, rfl, rfl⟩ marked
  · have current := unhurried.2.2 ahead
    have truthful := faithful (Nat.zero_lt_of_lt ahead)
    have jumped : max relieved.lastApplied args.lastIncludedIndex = args.lastIncludedIndex :=
      Nat.max_eq_right (kept.lastApplied ▸ current)
    have marker : (relieved.log.compactTo args.lastIncludedIndex
        args.lastIncludedTerm).snapshotIndex = args.lastIncludedIndex := by
      rw [Log.snapshotIndex_compactTo, marked.snapshotIndex, Nat.max_eq_right ahead.le]
    rw [built]
    refine ⟨?_, ?_, fun _ => ?_, fun _ _ => .inr ?_, ?_, fun _ => ?_⟩
    · exact jumped.symm ▸ mirrors.machine.install current _
    · rintro snap ⟨rfl⟩
      exact jumped.symm ▸ truthful
    · exact jumped.trans_le marker.ge
    · exact jumped.trans_le marker.ge
    · intro file member
      have written := RaftNode.mem_snapshots_persist member
      change file ∈ (relieved.write _).snapshots at written
      rcases RaftNode.mem_snapshots_write written with new | old
      · cases new
        exact truthful
      · exact mirrors.files file (kept.snapshots file old)
    · exact marker.symm ▸ truthful

theorem step (mirrors : Mirrors codec history process) (shows' : process.node.Shows history)
    (unhurried : Unhurried process input)
    (faithful : ∀ args saved, input = .installSnapshot args saved → 0 < args.lastIncludedIndex →
      Faithful codec history args.lastIncludedIndex args.data)
    (stepped : process.step codec now input = some after) : Mirrors codec history after := by
  cases kind : input.background with
  | true =>
    have changes := Process.changes_step (Process.elsewhere_of_background kind) stepped
    exact mirrors.undisturbed (Process.undisturbed_step kind stepped)
      (changes.keepsSnapshot (Process.parts_background kind))
  | false =>
    cases input with
    | applyLoop branch => exact mirrors.applyLoop shows' unhurried stepped
    | readApplyCh saved => exact mirrors.readApplyCh unhurried stepped
    | installSnapshot args saved =>
      cases stepped
      exact mirrors.handleInstallSnapshot saved unhurried (faithful args saved rfl)
    | _ => cases kind

theorem start {disk : Disk} (cfg : Config) (threshold boots : Nat) {memory : PersistedState}
    (backs : disk.Backs memory)
    (files : ∀ file, disk.snapshot = some file → Faithful codec history file.index file.data) :
    Mirrors codec history (Process.start codec cfg threshold boots disk) := by
  obtain ⟨lastApplied, notify, snapshots⟩ := boot_applied cfg disk
  have log : (boot cfg disk).log = memory.entries :=
    congrArg PersistedState.entries ((memory_boot cfg disk).trans backs.recovered)
  refine ⟨⟨disk.covered, lastApplied.ge, ?_, fun _ => lastApplied.symm⟩, ?_, ?_, nofun, ?_, ?_⟩
  · simp only [Process.start, Disk.covered]
    cases found : disk.snapshot with
    | none => rfl
    | some file =>
      have positive := backs.positive file found
      simp only [Nat.ne_of_gt positive, ↓reduceIte, Option.map_some, Option.getD_some]
      rw [files file found, restore_encodeData]
  · intro snap waiting
    cases notify.symm.trans waiting
  · simp [Process.awaitsRestore, Process.start, notify]
  · intro file member
    exact files file (by simpa [Process.start, snapshots] using member)
  · intro positive
    change 0 < (boot cfg disk).log.snapshotIndex at positive
    cases found : disk.snapshot with
    | none => simp [log, Log.snapshotIndex, backs.marker, Disk.covered, found] at positive
    | some file =>
      have stands := standsAt_boot cfg backs found
      change Faithful codec history (boot cfg disk).log.snapshotIndex (boot cfg disk).snapshotData
      rw [stands.index, stands.data]
      exact files file found

end Mirrors

end KvStore

end RaftGo
