import RaftGo.KvStore.Coherence
import RaftGo.KvStore.Ordering
import RaftGo.KvStore.Progress
import RaftGo.Raft.Recovery

/-! Ordered application. The apply loop gives up the lock in the middle of every
entry; the indices stay in order all the same, and what reaches the state machine
and `applyCh` is the committed log from the snapshot on, each entry once. -/

namespace RaftGo

namespace Raft.Log

theorem le_lastIndex_of_term (log : Log) {index : Nat} (stamped : (log.get index).term ≠ 0) :
    index ≤ log.lastIndex := by
  by_contra beyond
  rw [log.get_of_lastIndex_lt (Nat.lt_of_not_le beyond)] at stamped
  exact stamped rfl

/-- Merging keeps everything up to a bound below which no entry conflicts. -/
theorem mergeEntries_keeps_agreed (log : Log) {entries : List LogEntry} {bound : Nat}
    (inside : bound ≤ log.lastIndex)
    (agrees : ∀ entry ∈ entries, log.snapshotIndex < entry.index → entry.index ≤ bound →
      (log.get entry.index).term = entry.term) : log.Keeps (log.mergeEntries entries) bound := by
  refine log.mergeEntries_keeps inside fun cut truncates => ?_
  obtain ⟨entry, member, rfl, above, conflict⟩ := log.truncation_conflict truncates
  by_contra covered
  exact conflict (agrees entry member above (Nat.le_of_not_lt covered))

end Raft.Log

namespace KvStore

open Raft Library

/-- No entry of an `AppendEntries` that passes the term check conflicts with an entry
at or below `commitIndex`. -/
def Harmless (process : Process) : Input → Prop
  | .appendEntries args => process.node.currentTerm ≤ args.term → ∀ entry ∈ args.entries,
      process.node.log.snapshotIndex < entry.index → entry.index ≤ process.node.commitIndex →
        (process.node.log.get entry.index).term = entry.term
  | _ => True

instance (process : Process) (input : Input) : Decidable (Harmless process input) := by
  induction input using Input.casesOn with
  | appendEntries args => exact inferInstanceAs (Decidable (_ → ∀ entry ∈ args.entries, _ → _ → _))
  | _ => exact isTrue trivial

/-- No entry the apply loop has still to take is ever compacted. -/
theorem boundary_step {codec : Codec} {now : Nat} {process after : Process} {input : Input}
    (boundary : process.node.log.snapshotIndex ≤ process.node.lastApplied)
    (stepped : process.step codec now input = some after) :
    after.node.log.snapshotIndex ≤ after.node.lastApplied := by
  cases Process.progress_step stepped with
  | rests same => rwa [same.log, same.lastApplied]
  | appends entry leads index term log commitIndex lastApplied => rwa [log, lastApplied]
  | merges args request current agrees log commitIndex lastApplied =>
    rwa [log, lastApplied, Log.snapshotIndex_mergeEntries]
  | commits leads log ahead own lastApplied => rwa [log, lastApplied]
  | compacts term ahead log commitIndex lastApplied =>
    rw [log, lastApplied, Log.snapshotIndex_compactTo]
    exact Nat.max_le.mpr ⟨boundary, Nat.le_refl _⟩
  | installs args saved request ahead log commitIndex lastApplied =>
    rw [log, lastApplied, Log.snapshotIndex_compactTo]
    exact max_le_max_right _ boundary
  | takes behind taken log commitIndex lastApplied =>
    rw [log, lastApplied]
    exact Nat.le_succ_of_le boundary

/-- No entry is applied before it is committed, as long as `commitIndex` does not fall. -/
theorem applied_step {codec : Codec} {now : Nat} {process after : Process} {input : Input}
    (applied : process.node.lastApplied ≤ process.node.commitIndex)
    (stepped : process.step codec now input = some after)
    (kept : process.node.commitIndex ≤ after.node.commitIndex) :
    after.node.lastApplied ≤ after.node.commitIndex := by
  have stays (same : after.node.lastApplied = process.node.lastApplied) :
      after.node.lastApplied ≤ after.node.commitIndex := by
    rw [same]
    exact applied.trans kept
  cases Process.progress_step stepped with
  | rests same => exact stays same.lastApplied
  | appends entry leads index term log commitIndex lastApplied => exact stays lastApplied
  | merges args request current agrees log commitIndex lastApplied => exact stays lastApplied
  | commits leads log ahead own lastApplied => exact stays lastApplied
  | compacts term ahead log commitIndex lastApplied => exact stays lastApplied
  | installs args saved request ahead log commitIndex lastApplied =>
    rw [lastApplied, commitIndex]
    exact max_le_max_right _ applied
  | takes behind taken log commitIndex lastApplied =>
    rw [lastApplied, commitIndex]
    exact behind

/-- The four indices are in order. Only a term greater than zero makes a leader, so
an entry of its term is in the log. -/
structure InOrder (node : RaftNode) : Prop where
  boundary : node.log.snapshotIndex ≤ node.lastApplied
  applied : node.lastApplied ≤ node.commitIndex
  committed : node.commitIndex ≤ node.log.lastIndex
  elected : node.state ≠ .follower → node.currentTerm ≠ 0

theorem commitIndex_step {codec : Codec} {now : Nat} {process after : Process} {input : Input}
    (inOrder : InOrder process.node) (harmless : Harmless process input)
    (stepped : process.step codec now input = some after) :
    process.node.commitIndex ≤ after.node.commitIndex := by
  cases Process.progress_step stepped with
  | rests same => exact same.commitIndex.ge
  | appends entry leads index term log commitIndex lastApplied => exact commitIndex.ge
  | merges args request current agrees log commitIndex lastApplied =>
    subst request
    have kept :=
      (process.node.log.mergeEntries_keeps_agreed inOrder.committed (harmless current)).reach
    rw [← log] at kept
    rw [commitIndex]
    split <;> omega
  | commits leads log ahead own lastApplied => exact Nat.le_of_lt ahead
  | compacts term ahead log commitIndex lastApplied => exact commitIndex.ge
  | installs args saved request ahead log commitIndex lastApplied =>
    rw [commitIndex]
    exact Nat.le_max_left _ _
  | takes behind taken log commitIndex lastApplied => exact commitIndex.ge

namespace InOrder

variable {codec : Codec} {now : Nat} {process after : Process} {input : Input}

theorem elected_step (inOrder : InOrder process.node)
    (stepped : process.step codec now input = some after) (role : after.node.state ≠ .follower) :
    after.node.currentTerm ≠ 0 := by
  cases Process.standing_step stepped with
  | keeps state currentTerm =>
    rw [currentTerm]
    exact inOrder.elected (state ▸ role)
  | yields state later => exact absurd state role
  | stands state currentTerm => omega
  | wins stood state currentTerm =>
    rw [currentTerm]
    exact inOrder.elected (by simp [stood])

theorem committed_step (inOrder : InOrder process.node) (harmless : Harmless process input)
    (stepped : process.step codec now input = some after) :
    after.node.commitIndex ≤ after.node.log.lastIndex := by
  have committed := inOrder.committed
  cases Process.progress_step stepped with
  | rests same => rwa [same.log, same.commitIndex]
  | appends entry leads index term log commitIndex lastApplied =>
    rw [log, commitIndex, Log.lastIndex_append]
    exact Nat.le_add_right_of_le committed
  | merges args request current agrees log commitIndex lastApplied =>
    subst request
    have kept := (process.node.log.mergeEntries_keeps_agreed committed (harmless current)).reach
    rw [← log] at kept
    rw [commitIndex]
    split <;> omega
  | commits leads log ahead own lastApplied =>
    rw [log]
    refine process.node.log.le_lastIndex_of_term ?_
    rw [own]
    exact inOrder.elected (by simp [leads])
  | compacts term ahead log commitIndex lastApplied =>
    rw [log, commitIndex, Log.lastIndex_compactTo]
    exact le_max_of_le_left committed
  | installs args saved request ahead log commitIndex lastApplied =>
    rw [log, commitIndex, Log.lastIndex_compactTo]
    exact max_le_max_right _ committed
  | takes behind taken log commitIndex lastApplied => rwa [log, commitIndex]

theorem step (inOrder : InOrder process.node) (harmless : Harmless process input)
    (stepped : process.step codec now input = some after) : InOrder after.node where
  boundary := boundary_step inOrder.boundary stepped
  applied := applied_step inOrder.applied stepped (commitIndex_step inOrder harmless stepped)
  committed := inOrder.committed_step harmless stepped
  elected := inOrder.elected_step stepped

/-- A restart stands at its snapshot file, which no log it recovers ends before. -/
theorem start {disk : Disk} {memory : PersistedState} (backs : disk.Backs memory)
    (cfg : Config) (threshold boots : Nat) :
    InOrder (Process.start codec cfg threshold boots disk).node := by
  have node : (Process.start codec cfg threshold boots disk).node = boot cfg disk := rfl
  have log : (boot cfg disk).log = memory.entries :=
    congrArg PersistedState.entries ((memory_boot cfg disk).trans backs.recovered)
  obtain ⟨term, data, booted⟩ := boot_eq cfg disk
  have applied : (boot cfg disk).lastApplied = disk.covered := by rw [booted]
  have committed : (boot cfg disk).commitIndex = disk.covered := by rw [booted]
  rw [node]
  refine ⟨?_, ?_, ?_, ?_⟩
  · rw [log, applied, backs.snapshotIndex_eq]
  · rw [applied, committed]
  · rw [log, committed, Log.lastIndex_eq, backs.snapshotIndex_eq]
    exact Nat.le_add_right _ _
  · intro role
    rw [booted] at role
    exact absurd rfl role

end InOrder

/-- The map after entries are passed to `Apply`. -/
def execute (codec : Codec) (data : Data) (entries : List LogEntry) : Data :=
  entries.foldl (fun data entry => (apply codec data entry.command).1) data

/-- The messages the loop makes of entries passed to `Apply`. -/
def outcomes (codec : Codec) : Data → List LogEntry → List ApplyMsg
  | _, [] => []
  | data, entry :: rest =>
    .entry entry.index entry.term entry.command (apply codec data entry.command).2 ::
      outcomes codec (apply codec data entry.command).1 rest

theorem execute_snoc (codec : Codec) (data : Data) (entries : List LogEntry) (entry : LogEntry) :
    execute codec data (entries ++ [entry]) =
      (apply codec (execute codec data entries) entry.command).1 := by
  simp [execute]

theorem outcomes_snoc (codec : Codec) (data : Data) (entries : List LogEntry)
    (entry : LogEntry) : outcomes codec data (entries ++ [entry]) = outcomes codec data entries ++
      [.entry entry.index entry.term entry.command
        (apply codec (execute codec data entries) entry.command).2] := by
  induction entries generalizing data with
  | nil => rfl
  | cons first rest ih => simp [outcomes, execute, ih]

/-- The entry taken that `Apply` has not seen yet. -/
def ApplyLoop.held : ApplyLoop → List LogEntry
  | .apply entry => [entry]
  | _ => []

/-- The message made that `applyCh` has not taken yet. -/
def ApplyLoop.outbox : ApplyLoop → List ApplyMsg
  | .deliver msg => [msg]
  | _ => []

/-- The message an input sends on `applyCh`. -/
def Process.delivered? (process : Process) : Input → Option ApplyMsg
  | .applyLoop _ => match process.loop with
    | .deliver msg => some msg
    | _ => none
  | _ => none

/-- The messages sent on `applyCh` in a run, in order. -/
def delivered (moves : List (Move Process (Nat × Input))) : List ApplyMsg :=
  moves.filterMap fun move => move.before.delivered? move.event.2

/-- The indices at which the apply loop took an entry, in order. -/
def processed (moves : List (Move Process (Nat × Input))) : List Nat :=
  moves.filterMap fun move =>
    (move.before.taken? move.event.2).map fun _ => move.before.node.lastApplied + 1

theorem delivered_snoc (moves : List (Move Process (Nat × Input)))
    (move : Move Process (Nat × Input)) : delivered (moves ++ [move]) =
      delivered moves ++ (move.before.delivered? move.event.2).toList := by
  unfold delivered
  cases found : move.before.delivered? move.event.2 <;> simp [found]

theorem processed_snoc (moves : List (Move Process (Nat × Input)))
    (move : Move Process (Nat × Input)) : processed (moves ++ [move]) = processed moves ++
      ((move.before.taken? move.event.2).map fun _ => move.before.node.lastApplied + 1).toList := by
  unfold processed
  cases found : move.before.taken? move.event.2 <;> simp [found]

/-- What an input adds to the record of a run. -/
structure Silent (process : Process) (input : Input) : Prop where
  taken : process.taken? input = none
  applied : process.applied? input = none
  delivered : process.delivered? input = none

theorem silent_of_other {process : Process} {input : Input}
    (other : ∀ branch, input ≠ .applyLoop branch) : Silent process input := by
  cases input with
  | applyLoop branch => exact absurd rfl (other branch)
  | _ => exact ⟨rfl, rfl, rfl⟩

theorem silent_of_select {process : Process} {branch : Branch} (idle : process.loop = .select) :
    Silent process (.applyLoop branch) :=
  ⟨Process.taken?_elsewhere (by simp [idle]), by simp [Process.applied?, idle],
    by simp [Process.delivered?, idle]⟩

/-- In a run without installed snapshots: what was taken from the log, passed to
`Apply` and sent on `applyCh` since the process stood at `start`. -/
structure Sequenced (codec : Codec) (start : Process) (moves : List (Move Process (Nat × Input)))
    (process : Process) : Prop where
  count : process.node.lastApplied = start.node.lastApplied + (taken moves).length
  indices : processed moves = List.range' (start.node.lastApplied + 1) (taken moves).length
  passed : applied moves ++ process.loop.held = (taken moves).filter (!·.isConfig)
  data : process.data = execute codec start.data (applied moves)
  sent : delivered moves ++ process.loop.outbox = outcomes codec start.data (applied moves)
  waiting : process.node.snapshotNotifyC = none
  place : ∀ snap, process.loop ≠ .restore snap

namespace Sequenced

variable {codec : Codec} {start process after : Process} {now : Nat} {input : Input}
  {moves : List (Move Process (Nat × Input))}

theorem keep (sequenced : Sequenced codec start moves process) (silent : Silent process input)
    (lastApplied : after.node.lastApplied = process.node.lastApplied)
    (waiting : after.node.snapshotNotifyC = none) (held : after.loop.held = process.loop.held)
    (outbox : after.loop.outbox = process.loop.outbox) (data : after.data = process.data)
    (place : ∀ snap, after.loop ≠ .restore snap) :
    Sequenced codec start (moves ++ [⟨process, (now, input), after⟩]) after := by
  have taken : taken (moves ++ [⟨process, (now, input), after⟩]) = taken moves := by
    simp [taken_snoc, silent.taken]
  have applied : applied (moves ++ [⟨process, (now, input), after⟩]) = applied moves := by
    simp [applied_snoc, silent.applied]
  refine ⟨?_, ?_, ?_, ?_, ?_, waiting, place⟩
  · rw [taken, lastApplied]
    exact sequenced.count
  · rw [taken, processed_snoc, silent.taken]
    simpa using sequenced.indices
  · rw [applied, taken, held]
    exact sequenced.passed
  · rw [applied, data]
    exact sequenced.data
  · rw [applied, outbox, delivered_snoc, silent.delivered]
    simpa using sequenced.sent

theorem take (sequenced : Sequenced codec start moves process) {branch : Branch}
    (locked : process.loop = .relock)
    (behind : process.node.lastApplied < process.node.commitIndex)
    (lastApplied : after.node.lastApplied = process.node.lastApplied + 1)
    (waiting : after.node.snapshotNotifyC = none) (data : after.data = process.data)
    (held : after.loop.held = if (process.node.log.get (process.node.lastApplied + 1)).isConfig
      then [] else [process.node.log.get (process.node.lastApplied + 1)])
    (outbox : after.loop.outbox = []) (place : ∀ snap, after.loop ≠ .restore snap) :
    Sequenced codec start (moves ++ [⟨process, (now, .applyLoop branch), after⟩]) after := by
  have took := Process.taken?_behind branch locked behind
  have taken : taken (moves ++ [⟨process, (now, .applyLoop branch), after⟩]) =
      taken moves ++ [process.node.log.get (process.node.lastApplied + 1)] := by
    simp [taken_snoc, took]
  have applied : applied (moves ++ [⟨process, (now, .applyLoop branch), after⟩]) =
      applied moves := by
    simp [applied_snoc, Process.applied?, locked]
  have nothing : process.loop.held = [] ∧ process.loop.outbox = [] := by
    simp [locked, ApplyLoop.held, ApplyLoop.outbox]
  have passed := sequenced.passed
  have sent := sequenced.sent
  rw [nothing.1, List.append_nil] at passed
  rw [nothing.2, List.append_nil] at sent
  refine ⟨?_, ?_, ?_, ?_, ?_, waiting, place⟩
  · rw [taken, lastApplied, sequenced.count, List.length_append]
    rfl
  · rw [taken, processed_snoc, took, sequenced.indices, List.length_append, List.length_singleton,
      List.range'_concat, Option.map_some, Option.toList_some, sequenced.count]
    simp
    omega
  · rw [applied, taken, held, List.filter_append, passed]
    cases kind : (process.node.log.get (process.node.lastApplied + 1)).isConfig <;> simp [kind]
  · rw [applied, data]
    exact sequenced.data
  · rw [applied, outbox, List.append_nil, delivered_snoc]
    simpa [Process.delivered?, locked] using sent

theorem apply {branch : Branch} {entry : LogEntry} (sequenced : Sequenced codec start moves process)
    (holding : process.loop = .apply entry) :
    let after := { process with
      data := (KvStore.apply codec process.data entry.command).1
      loop := .deliver (.entry entry.index entry.term entry.command
        (KvStore.apply codec process.data entry.command).2) }
    Sequenced codec start (moves ++ [⟨process, (now, .applyLoop branch), after⟩]) after := by
  intro after
  have taken : taken (moves ++ [⟨process, (now, .applyLoop branch), after⟩]) = taken moves := by
    simp [taken_snoc, Process.taken?_elsewhere, holding]
  have applied : applied (moves ++ [⟨process, (now, .applyLoop branch), after⟩]) =
      applied moves ++ [entry] := by
    simp [applied_snoc, Process.applied?, holding]
  have passed := sequenced.passed
  have sent := sequenced.sent
  rw [holding] at passed sent
  refine ⟨?_, ?_, ?_, ?_, ?_, sequenced.waiting, by simp [after]⟩
  · rw [taken]
    exact sequenced.count
  · rw [taken, processed_snoc]
    simpa [Process.taken?_elsewhere, holding] using sequenced.indices
  · rw [applied, taken]
    simpa [ApplyLoop.held, after] using passed
  · rw [applied, execute_snoc, ← sequenced.data]
  · rw [applied, outcomes_snoc, delivered_snoc, ← sequenced.data]
    simpa [Process.delivered?, holding, ApplyLoop.outbox, after] using sent

theorem deliver {branch : Branch} {msg : ApplyMsg} (sequenced : Sequenced codec start moves process)
    (blocked : process.loop = .deliver msg) :
    let after := { process with
      applyCh := process.applyCh ++ [msg]
      loop := if msg.isSnapshot then .select else .relock }
    Sequenced codec start (moves ++ [⟨process, (now, .applyLoop branch), after⟩]) after := by
  intro after
  have taken : taken (moves ++ [⟨process, (now, .applyLoop branch), after⟩]) = taken moves := by
    simp [taken_snoc, Process.taken?_elsewhere, blocked]
  have applied : applied (moves ++ [⟨process, (now, .applyLoop branch), after⟩]) =
      applied moves := by
    simp [applied_snoc, Process.applied?, blocked]
  have nothing : after.loop.held = [] ∧ after.loop.outbox = [] := by
    dsimp only [after]
    split <;> exact ⟨rfl, rfl⟩
  have passed := sequenced.passed
  have sent := sequenced.sent
  rw [blocked] at passed sent
  refine ⟨?_, ?_, ?_, ?_, ?_, sequenced.waiting, ?_⟩
  · rw [taken]
    exact sequenced.count
  · rw [taken, processed_snoc]
    simpa [Process.taken?_elsewhere, blocked] using sequenced.indices
  · rw [applied, taken, nothing.1]
    exact passed
  · rw [applied]
    exact sequenced.data
  · rw [applied, nothing.2, delivered_snoc]
    simpa [Process.delivered?, blocked, ApplyLoop.outbox] using sent
  · intro snap
    dsimp only [after]
    split <;> simp

theorem applyLoop {branch : Branch} (sequenced : Sequenced codec start moves process)
    (moved : Process.ApplyTransition codec now process after) :
    Sequenced codec start (moves ++ [⟨process, (now, .applyLoop branch), after⟩]) after := by
  cases moved with
  | receiveSnapshot snap idle ready => cases sequenced.waiting.symm.trans ready
  | receiveCommit idle ready =>
    exact sequenced.keep (silent_of_select idle) rfl sequenced.waiting (by rw [idle]; rfl)
      (by rw [idle]; rfl) rfl (by simp)
  | restore snap holding => exact absurd holding (sequenced.place snap)
  | drained locked done =>
    refine sequenced.keep ⟨?_, ?_, ?_⟩ rfl sequenced.waiting (by rw [locked]; rfl)
      (by rw [locked]; rfl) rfl (by simp)
    · simp [Process.taken?, Nat.not_lt.mpr done]
    · simp [Process.applied?, locked]
    · simp [Process.delivered?, locked]
  | configure locked behind config =>
    have keeps := RaftNode.keepsApplied_applyConfigEntry
      { process.node with lastApplied := process.node.lastApplied + 1 } now
      (process.node.log.get (process.node.lastApplied + 1))
    exact sequenced.take locked behind keeps.lastApplied
      (keeps.snapshotNotifyC.trans sequenced.waiting) rfl (by rw [if_pos config]; rfl) rfl (by simp)
  | take locked behind command =>
    exact sequenced.take locked behind rfl sequenced.waiting rfl
      (by rw [if_neg (by simp [command])]; rfl) rfl (by simp)
  | apply entry holding => exact sequenced.apply holding
  | deliver msg blocked room => exact sequenced.deliver blocked

theorem step {event : Nat × Input} (sequenced : Sequenced codec start moves process)
    (noInstall : event.2.installs = false)
    (stepped : (Process.system codec).step process event = some after) :
    Sequenced codec start (moves ++ [⟨process, event, after⟩]) after := by
  obtain ⟨now, input⟩ := event
  cases kind : input.background with
  | true =>
    have same := Process.undisturbed_step kind stepped
    have silent : Silent process input :=
      silent_of_other fun branch request => by simp [request, Input.background] at kind
    exact sequenced.keep silent same.node.lastApplied
      (same.node.snapshotNotifyC.trans sequenced.waiting) (by rw [same.loop]) (by rw [same.loop])
      same.data (same.loop ▸ sequenced.place)
  | false =>
    cases input with
    | applyLoop branch => exact sequenced.applyLoop (Process.applyLoop_cases stepped)
    | installSnapshot args saved => cases noInstall
    | readApplyCh saved =>
      have silent : Silent process (.readApplyCh saved) := silent_of_other (by simp)
      cases Process.readApplyCh_cases stepped with
      | take data holding =>
        obtain ⟨lastApplied, notify, _⟩ := process.node.takeSnapshot_saves data saved
        exact sequenced.keep silent lastApplied (notify.trans sequenced.waiting) rfl rfl rfl
          sequenced.place
      | routeEntry index term command result reader holding next =>
        obtain ⟨pending, calls, routed⟩ := Process.routeEntry_eq
          { process with applied := process.applied + 1 } index term result
        rw [routed]
        exact sequenced.keep silent rfl sequenced.waiting rfl rfl rfl sequenced.place
      | _ => exact sequenced.keep silent rfl sequenced.waiting rfl rfl rfl sequenced.place
    | _ => cases kind

theorem initial (codec : Codec) (cfg : Config) (threshold boots : Nat) (disk : Disk) :
    Sequenced codec (Process.start codec cfg threshold boots disk) []
      (Process.start codec cfg threshold boots disk) where
  count := rfl
  indices := rfl
  passed := rfl
  data := rfl
  sent := rfl
  waiting := (boot_applied cfg disk).2.1
  place := by simp [Process.start]

end Sequenced

namespace Process

theorem behind_of_taken? {process : Process} {input : Input} {entry : LogEntry}
    (taken : process.taken? input = some entry) :
    process.node.lastApplied < process.node.commitIndex := by
  cases input with
  | applyLoop branch =>
    simp only [taken?] at taken
    split at taken
    · rename_i ready
      exact ready.2
    · cases taken
  | _ => cases taken

/-- The entry the loop takes stands in the log, behind the snapshot marker. -/
theorem present_of_taken? {process : Process} {input : Input} {entry : LogEntry}
    (inOrder : InOrder process.node) (taken : process.taken? input = some entry) :
    process.node.log.rest[process.node.lastApplied - process.node.log.snapshotIndex]? =
      some entry := by
  have behind := behind_of_taken? taken
  have boundary := inOrder.boundary
  have committed := inOrder.committed
  rw [Log.lastIndex_eq] at committed
  have position : process.node.lastApplied + 1 - process.node.log.snapshotIndex - 1 =
      process.node.lastApplied - process.node.log.snapshotIndex := by omega
  have inside : process.node.lastApplied - process.node.log.snapshotIndex <
      process.node.log.rest.length := by omega
  rw [eq_get_of_taken? taken, process.node.log.get_of_gt (by omega), position,
    List.getElem?_eq_getElem inside, Option.getD_some]

end Process

/-- The indices of a node stay in order and `commitIndex` never falls. Without
installed snapshots the apply loop takes the entries behind the snapshot it was
started from one after the other, each of them present in the log; it passes each
command once to `Apply`, and sends the results in the same order. -/
theorem ordered_application {codec : Codec} {cfg : Config} {threshold boots : Nat} {disk : Disk}
    {memory : PersistedState} (backs : disk.Backs memory)
    {moves : List (Move Process (Nat × Input))} {process : Process}
    (trace : (Process.system codec).Trace (fun process event => Harmless process event.2)
      (Process.start codec cfg threshold boots disk) moves process) :
    (process.node.log.snapshotIndex ≤ process.node.lastApplied ∧
      process.node.lastApplied ≤ process.node.commitIndex ∧
      process.node.commitIndex ≤ process.node.log.lastIndex) ∧
    (∀ move ∈ moves, move.before.node.commitIndex ≤ move.after.node.commitIndex) ∧
    ((∀ move ∈ moves, move.event.2.installs = false) →
      let first := Process.start codec cfg threshold boots disk
      processed moves = List.range' (first.node.log.snapshotIndex + 1) (taken moves).length ∧
      applied moves ++ process.loop.held = (taken moves).filter (!·.isConfig) ∧
      process.data = execute codec first.data (applied moves) ∧
      delivered moves ++ process.loop.outbox = outcomes codec first.data (applied moves) ∧
      ∀ move ∈ moves, ∀ entry, move.before.taken? move.event.2 = some entry →
        move.before.node.log.snapshotIndex ≤ move.before.node.lastApplied ∧
        move.before.node.log.rest[move.before.node.lastApplied -
          move.before.node.log.snapshotIndex]? = some entry) := by
  have ordered : ∀ moves process, (Process.system codec).Trace
      (fun process event => Harmless process event.2)
      (Process.start codec cfg threshold boots disk) moves process → InOrder process.node := by
    intro moves process trace
    exact trace.record (fun _ process => InOrder process.node) (.start backs cfg threshold boots)
      fun _ _ _ _ inOrder harmless stepped => inOrder.step harmless stepped
  have final := ordered moves process trace
  refine ⟨⟨final.boundary, final.applied, final.committed⟩, ?_, ?_⟩
  · intro move member
    obtain ⟨prior, reached, harmless, stepped⟩ := trace.of_move member
    exact commitIndex_step (ordered prior _ reached) harmless stepped
  · intro noInstalls first
    have sequenced : Sequenced codec first moves process := by
      refine trace.record (fun moves process => (∀ move ∈ moves, move.event.2.installs = false) →
        Sequenced codec first moves process) (fun _ => .initial codec cfg threshold boots disk) ?_
        noInstalls
      intro moves process event after before _ stepped none
      exact (before fun move member => none move (List.mem_append_left _ member)).step
        (none _ (List.mem_append_right _ (List.mem_singleton_self _))) stepped
    have boundary : first.node.lastApplied = first.node.log.snapshotIndex := by
      have log : first.node.log = memory.entries :=
        congrArg PersistedState.entries ((memory_boot cfg disk).trans backs.recovered)
      rw [log, backs.snapshotIndex_eq]
      exact (boot_applied cfg disk).1
    refine ⟨boundary ▸ sequenced.indices, sequenced.passed, sequenced.data, sequenced.sent, ?_⟩
    intro move member entry took
    obtain ⟨prior, reached, _⟩ := trace.of_move member
    have inOrder := ordered prior _ reached
    exact ⟨inOrder.boundary, Process.present_of_taken? inOrder took⟩

/-- A follower applies two entries and takes a snapshot in between. -/
theorem ordered_application_follower :
    ∃ moves process, (Process.system Codec.sample).Trace
        (fun process event => Harmless process event.2) (follower 1) moves process ∧
      (taken moves).length = 2 ∧ process.node.log.snapshotIndex = 1 ∧
      processed moves = List.range' 1 2 ∧
      delivered moves ++ process.loop.outbox =
        outcomes Codec.sample (follower 1).data (applied moves) := by
  obtain ⟨moves, process, trace, checked⟩ := (Process.system Codec.sample).exists_trace
    (fun process event => Harmless process event.2) (follower 1)
    (firstEntryRouted ++ [(0, .readApplyCh true), (0, .readApplyCh true), (0, .applyLoop .commit),
      (0, .applyLoop .commit)])
    (fun moves process => decide ((taken moves).length = 2) &&
      decide (process.node.log.snapshotIndex = 1) &&
      moves.all fun move => !move.event.2.installs) (by decide +kernel)
  simp only [Bool.and_eq_true, decide_eq_true_eq, List.all_eq_true, Bool.not_eq_true'] at checked
  obtain ⟨⟨count, boundary⟩, noInstalls⟩ := checked
  obtain ⟨_, _, sequence⟩ := ordered_application Disk.Backs.empty trace
  obtain ⟨indices, _, _, sent, _⟩ := sequence noInstalls
  refine ⟨moves, process, trace, count, boundary, ?_, sent⟩
  rw [indices, count]
  rfl

end KvStore

end RaftGo
