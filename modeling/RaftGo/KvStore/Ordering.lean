import RaftGo.KvStore.Runs
import RaftGo.Raft.History

/-! The order of `Restore` and `Apply`. `HandleInstallSnapshot` moves
`lastApplied` at once and queues the snapshot for the apply loop; entries behind
the snapshot must not reach the state machine before it does. -/

namespace RaftGo.KvStore

open Raft Library

/-- The map after the first entries of a history. -/
def stateAt (codec : Codec) (history : History) (count : Nat) : Data :=
  replay codec (history.entries.take count)

theorem stateAt_succ (codec : Codec) {history : History} {count : Nat} {entry : LogEntry}
    (found : history.entries[count]? = some entry) :
    stateAt codec history (count + 1) =
      if entry.isConfig then stateAt codec history count
      else (apply codec (stateAt codec history count) entry.command).1 := by
  unfold stateAt
  rw [List.take_add_one, found, Option.toList_some, replay_snoc]

namespace Process

variable (process : Process)

/-- The entry an input passes to `Apply`. -/
def applied? : Input → Option LogEntry
  | .applyLoop _ => match process.loop with
    | .apply entry => some entry
    | _ => none
  | _ => none

/-- The snapshot an input passes to `Restore`. -/
def restored? : Input → Option SnapshotToApply
  | .applyLoop _ => match process.loop with
    | .restore snap => some snap
    | _ => none
  | _ => none

end Process

theorem loop_of_applied? {process : Process} {input : Input} {entry : LogEntry}
    (applies : process.applied? input = some entry) : process.loop = .apply entry := by
  cases input <;> cases place : process.loop <;> simp_all [Process.applied?]

theorem loop_of_restored? {process : Process} {input : Input} {snap : SnapshotToApply}
    (restores : process.restored? input = some snap) : process.loop = .restore snap := by
  cases input <;> cases place : process.loop <;> simp_all [Process.restored?]

/-- The entries a run passed to `Apply`, in order. -/
def applied (moves : List (Move Process (Nat × Input))) : List LogEntry :=
  moves.filterMap fun move => move.before.applied? move.event.2

theorem applied_snoc (moves : List (Move Process (Nat × Input)))
    (move : Move Process (Nat × Input)) :
    applied (moves ++ [move]) = applied moves ++ (move.before.applied? move.event.2).toList := by
  unfold applied
  cases found : move.before.applied? move.event.2 <;> simp [found]

/-- A follower receives entries of the history, and snapshots of it that are not
behind what it has applied. -/
def Genuine (codec : Codec) (history : History) (process : Process) : Input → Prop
  | .appendEntries args => args.entries <+: history.entries.drop args.prevLogIndex
  | .installSnapshot args _ => process.node.lastApplied ≤ args.lastIncludedIndex ∧
      args.lastIncludedIndex ≤ history.entries.length ∧
      args.data = codec.encodeData (stateAt codec history args.lastIncludedIndex)
  | .applyLoop _ => True
  | .readApplyCh _ => True
  | _ => False

/-- The apply loop takes no command while a snapshot waits for it. -/
def Settled (process : Process) (input : Input) : Prop :=
  process.node.snapshotNotifyC.isSome = true → ∀ entry ∈ process.taken? input, entry.isConfig = true

instance (codec : Codec) (history : History) (process : Process) (input : Input) :
    Decidable (Genuine codec history process input) := by
  induction input using Input.casesOn with
  | appendEntries args => exact inferInstanceAs (Decidable (_ <+: _))
  | installSnapshot args saved => exact inferInstanceAs (Decidable (_ ∧ _ ∧ _))
  | applyLoop branch => exact isTrue trivial
  | readApplyCh saved => exact isTrue trivial
  | _ => exact isFalse id

instance (process : Process) (input : Input) : Decidable (Settled process input) :=
  inferInstanceAs (Decidable (_ → _))

/-- A data directory a follower of the history can leave behind. -/
structure Backed (codec : Codec) (history : History) (disk : Disk) : Prop where
  follows : disk.Follows history
  data : ∀ file, disk.snapshot = some file →
    file.data = codec.encodeData (stateAt codec history file.index)

/-- What the loop is about to do, and what the map holds. An installed snapshot
that still waits will replace the map, so only without one does it have to be
that of `lastApplied` by the end of the pass. -/
def ApplyLoop.Ready (codec : Codec) (history : History) (done : List LogEntry)
    (lastApplied : Nat) (waiting : Option SnapshotToApply) (data : Data) : ApplyLoop → Prop
  | .apply entry => ∃ count, history.entries[count]? = some entry ∧ entry.isConfig = false ∧
      data = stateAt codec history count ∧ count < lastApplied ∧
      (waiting = none → lastApplied = count + 1) ∧
      ∀ snap, waiting = some snap → count < snap.index
  | .restore snap => (∀ entry ∈ done, entry.index ≤ snap.index) ∧
      (waiting = none → snap.data = codec.encodeData (stateAt codec history lastApplied))
  | _ => waiting = none → data = stateAt codec history lastApplied

/-- A newer snapshot may arrive at any point of the loop. -/
theorem ApplyLoop.Ready.install {codec : Codec} {history : History} {done : List LogEntry}
    {lastApplied : Nat} {waiting : Option SnapshotToApply} {data : Data} {loop : ApplyLoop}
    {snap : SnapshotToApply}
    (ready : loop.Ready codec history done lastApplied waiting data)
    (ahead : lastApplied ≤ snap.index) :
    loop.Ready codec history done snap.index (some snap) data := by
  cases loop with
  | apply entry =>
    obtain ⟨count, found, command, current, behind, _, _⟩ := ready
    have covered := Nat.lt_of_lt_of_le behind ahead
    refine ⟨count, found, command, current, covered, (fun none => by cases none), ?_⟩
    rintro _ ⟨⟩
    exact covered
  | restore older => exact ⟨ready.1, fun none => by cases none⟩
  | select => exact fun none => by cases none
  | relock => exact fun none => by cases none
  | deliver msg => exact fun none => by cases none

structure Ordered (codec : Codec) (history : History) (done : List LogEntry) (process : Process) :
    Prop where
  follows : process.node.Follows history
  within : ∀ entry ∈ done, entry.index ≤ process.node.lastApplied
  pending : ∀ snap, process.node.snapshotNotifyC = some snap →
    snap.data = codec.encodeData (stateAt codec history process.node.lastApplied) ∧
      ∀ entry ∈ done, entry.index ≤ snap.index
  machine : process.loop.Ready codec history done process.node.lastApplied
    process.node.snapshotNotifyC process.data

namespace Ordered

variable {codec : Codec} {history : History} {done : List LogEntry} {process after : Process}
  {now : Nat}

theorem within_snoc {bound : Nat} {entry : LogEntry}
    (within : ∀ other ∈ done, other.index ≤ bound) (last : entry.index ≤ bound) :
    ∀ other ∈ done ++ [entry], other.index ≤ bound := by
  intro other member
  rcases List.mem_append.mp member with old | new
  · exact within other old
  · exact List.mem_singleton.mp new ▸ last

theorem frame (ordered : Ordered codec history done process)
    (follows : after.node.Follows history)
    (lastApplied : after.node.lastApplied = process.node.lastApplied)
    (notify : after.node.snapshotNotifyC = process.node.snapshotNotifyC)
    (loop : after.loop = process.loop) (data : after.data = process.data) :
    Ordered codec history done after where
  follows := follows
  within := lastApplied ▸ ordered.within
  pending := by
    rw [lastApplied, notify]
    exact ordered.pending
  machine := by
    rw [loop, data, lastApplied, notify]
    exact ordered.machine

/-- The node jumps to a snapshot, which waits for the loop from then on. -/
theorem jump (snap : SnapshotToApply) (ordered : Ordered codec history done process)
    (follows : after.node.Follows history) (lastApplied : after.node.lastApplied = snap.index)
    (notify : after.node.snapshotNotifyC = some snap) (loop : after.loop = process.loop)
    (data : after.data = process.data) (ahead : process.node.lastApplied ≤ snap.index)
    (truthful : snap.data = codec.encodeData (stateAt codec history snap.index)) :
    Ordered codec history done after := by
  have within : ∀ entry ∈ done, entry.index ≤ snap.index :=
    fun entry member => Nat.le_trans (ordered.within entry member) ahead
  refine ⟨follows, lastApplied ▸ within, ?_, ?_⟩
  · rintro other same
    cases notify.symm.trans same
    rw [lastApplied]
    exact ⟨truthful, within⟩
  · rw [loop, data, lastApplied, notify]
    exact ordered.machine.install ahead

theorem handleAppendEntries {args : AppendEntriesArgs} (ordered : Ordered codec history done process)
    (genuine : args.entries <+: history.entries.drop args.prevLogIndex) :
    Ordered codec history done (process.withNode (process.node.handleAppendEntries now args).1) := by
  have keeps : process.node.KeepsApplied (process.node.handleAppendEntries now args).1 :=
    (RaftNode.Changes.handleAppendEntries process.node args).keepsApplied (by simp)
  exact ordered.frame (ordered.follows.handleAppendEntries genuine now) keeps.lastApplied
    keeps.snapshotNotifyC rfl rfl

theorem handleInstallSnapshot {args : InstallSnapshotArgs} (saved : Bool)
    (ordered : Ordered codec history done process)
    (ahead : process.node.lastApplied ≤ args.lastIncludedIndex)
    (inside : args.lastIncludedIndex ≤ history.entries.length)
    (truthful : args.data = codec.encodeData (stateAt codec history args.lastIncludedIndex)) :
    Ordered codec history done
      (process.withNode (process.node.handleInstallSnapshot args saved).1) := by
  have follows := ordered.follows.handleInstallSnapshot inside saved
  obtain ⟨relieved, before, outcome⟩ := process.node.handleInstallSnapshot_cases args saved
  have kept := before.unaffected
  rcases outcome with same | ⟨_, built⟩
  · rw [same] at follows ⊢
    exact ordered.frame follows kept.lastApplied kept.snapshotNotifyC rfl rfl
  · rw [built] at follows ⊢
    have jumped : max relieved.lastApplied args.lastIncludedIndex = args.lastIncludedIndex :=
      Nat.max_eq_right (kept.lastApplied ▸ ahead)
    exact ordered.jump ⟨args.lastIncludedIndex, args.lastIncludedTerm, args.data⟩ follows jumped
      rfl rfl rfl ahead truthful

theorem apply {entry : LogEntry} (ordered : Ordered codec history done process)
    (holding : process.loop = .apply entry) :
    Ordered codec history (done ++ [entry]) { process with
      data := (KvStore.apply codec process.data entry.command).1
      loop := .deliver (.entry entry.index entry.term entry.command
        (KvStore.apply codec process.data entry.command).2) } := by
  have machine := ordered.machine
  rw [holding] at machine
  obtain ⟨count, found, command, current, behind, last, covered⟩ := machine
  have index : entry.index = count + 1 := History.index_eq found
  refine ⟨ordered.follows, within_snoc ordered.within (index ▸ behind), ?_, ?_⟩
  · intro snap waiting
    have pending := ordered.pending snap waiting
    exact ⟨pending.1, within_snoc pending.2 (index ▸ covered snap waiting)⟩
  · intro none
    rw [last none, stateAt_succ codec found, if_neg (by simp [command]), ← current]

theorem takeEntry {branch : Branch} (ordered : Ordered codec history done process)
    (settled : Settled process (.applyLoop branch)) (locked : process.loop = .relock)
    (behind : process.node.lastApplied < process.node.commitIndex) :
    Ordered codec history done (process.takeEntry now) := by
  have machine := ordered.machine
  rw [locked] at machine
  have found := ordered.follows.next behind
  have advanced := ordered.follows.advance behind
  have within : ∀ entry ∈ done, entry.index ≤ process.node.lastApplied + 1 :=
    fun entry member => Nat.le_succ_of_le (ordered.within entry member)
  simp only [Process.takeEntry, behind, ↓reduceIte]
  split
  · rename_i config
    have unchanged := stateAt_succ codec found
    rw [if_pos config] at unchanged
    obtain ⟨state, leaderID, nextIndex, matchIndex, lastHeardFrom, _, applied⟩ :=
      RaftNode.applyConfigEntry_eq { process.node with lastApplied := process.node.lastApplied + 1 }
        now (process.node.log.get (process.node.lastApplied + 1))
    rw [applied]
    refine ⟨advanced.frame rfl rfl rfl, within, ?_, ?_⟩
    · intro snap waiting
      have pending := ordered.pending snap waiting
      exact ⟨pending.1.trans (congrArg codec.encodeData unchanged.symm), pending.2⟩
    · rw [locked]
      exact fun none => (machine none).trans unchanged.symm
  · rename_i command
    have command : (process.node.log.get (process.node.lastApplied + 1)).isConfig = false := by
      simpa using command
    -- a command is only taken when no snapshot waits
    have none : process.node.snapshotNotifyC = none := by
      by_contra waiting
      have config := settled (Option.isSome_iff_ne_none.mpr waiting) _
        (Process.taken?_behind branch locked behind)
      rw [command] at config
      cases config
    refine ⟨advanced, within, ?_, ?_⟩
    · intro snap waiting
      cases none.symm.trans waiting
    · refine ⟨process.node.lastApplied, found, command, machine none, Nat.lt_succ_self _,
        fun _ => rfl, ?_⟩
      intro snap waiting
      cases none.symm.trans waiting

theorem applyLoop {branch : Branch} (ordered : Ordered codec history done process)
    (settled : Settled process (.applyLoop branch))
    (stepped : process.applyLoop codec now branch = some after) :
    Ordered codec history (done ++ (process.applied? (.applyLoop branch)).toList) after := by
  have machine := ordered.machine
  cases place : process.loop with
  | apply entry =>
    simp only [Process.applyLoop, place, Option.some.injEq] at stepped
    subst stepped
    simp only [Process.applied?, place, Option.toList_some]
    exact ordered.apply place
  | relock =>
    simp only [Process.applyLoop, place, Option.some.injEq] at stepped
    subst stepped
    simp only [Process.applied?, place, Option.toList_none, List.append_nil]
    by_cases behind : process.node.lastApplied < process.node.commitIndex
    · exact ordered.takeEntry settled place behind
    · simp only [Process.takeEntry, behind, ↓reduceIte]
      rw [place] at machine
      exact { ordered with machine := machine }
  | select =>
    rw [place] at machine
    simp only [Process.applied?, place, Option.toList_none, List.append_nil]
    cases Process.applyLoop_cases stepped with
    | receiveSnapshot snap idle ready =>
      have pending := ordered.pending snap ready
      exact ⟨ordered.follows.frame rfl rfl rfl, ordered.within, (fun other waits => by cases waits),
        pending.2, fun _ => pending.1⟩
    | receiveCommit idle ready =>
      exact ⟨ordered.follows.frame rfl rfl rfl, ordered.within, ordered.pending, machine⟩
    | _ => simp_all
  | restore snap =>
    rw [place] at machine
    simp only [Process.applyLoop, place, Option.some.injEq] at stepped
    subst stepped
    simp only [Process.applied?, place, Option.toList_none, List.append_nil]
    refine { ordered with machine := fun none => ?_ }
    rw [machine.2 none, restore_encodeData]
  | deliver msg =>
    rw [place] at machine
    simp only [Process.applied?, place, Option.toList_none, List.append_nil]
    simp only [Process.applyLoop, place] at stepped
    split at stepped <;> cases stepped
    refine { ordered with machine := ?_ }
    split <;> exact machine

theorem readApplyCh {saved : Bool} (ordered : Ordered codec history done process)
    (stepped : process.readApplyCh codec saved = some after) :
    Ordered codec history done after := by
  cases Process.readApplyCh_cases stepped with
  | routeEntry index term command result reader holding next =>
    obtain ⟨pending, calls, routed⟩ := Process.routeEntry_eq
      { process with applied := process.applied + 1 } index term result
    rw [routed]
    exact { ordered with }
  | take data holding =>
    obtain ⟨lastApplied, notify, _⟩ := process.node.takeSnapshot_saves data saved
    exact ordered.frame (ordered.follows.takeSnapshot data saved) lastApplied notify rfl rfl
  | _ => exact { ordered with }

theorem step {event : Nat × Input} (ordered : Ordered codec history done process)
    (genuine : Genuine codec history process event.2) (settled : Settled process event.2)
    (stepped : (Process.system codec).step process event = some after) :
    Ordered codec history (done ++ (process.applied? event.2).toList) after := by
  obtain ⟨now, input⟩ := event
  cases input with
  | applyLoop branch => exact ordered.applyLoop settled stepped
  | readApplyCh saved =>
    simpa [Process.applied?] using ordered.readApplyCh stepped
  | appendEntries args =>
    cases stepped
    simpa [Process.applied?] using ordered.handleAppendEntries genuine
  | installSnapshot args saved =>
    cases stepped
    obtain ⟨ahead, inside, truthful⟩ := genuine
    simpa [Process.applied?] using ordered.handleInstallSnapshot saved ahead inside truthful
  | _ => exact genuine.elim

theorem start {disk : Disk} (backed : Backed codec history disk) (cfg : Config)
    (threshold boots : Nat) :
    Ordered codec history [] (Process.start codec cfg threshold boots disk) := by
  obtain ⟨lastApplied, notify, _⟩ := boot_applied cfg disk
  refine ⟨backed.follows.boot cfg, by simp, ?_, ?_⟩
  · intro snap waiting
    cases notify.symm.trans waiting
  · intro _
    simp only [Process.start, lastApplied, Disk.covered]
    cases found : disk.snapshot with
    | none => rfl
    | some file =>
      dsimp only [Option.map_some, Option.getD_some]
      split
      · rename_i empty
        rw [empty]
        rfl
      · rw [backed.data file found, restore_encodeData]

end Ordered

/-- A follower that lets a queued snapshot go first passes every entry to a state
machine that holds exactly the entries before it, and restores no snapshot older
than an entry it has applied. -/
theorem restore_apply_ordering {codec : Codec} {history : History} {cfg : Config}
    {threshold boots : Nat} {disk : Disk} (backed : Backed codec history disk)
    {moves : List (Move Process (Nat × Input))} {process : Process}
    (trace : (Process.system codec).Trace
      (fun process event => Genuine codec history process event.2 ∧ Settled process event.2)
      (Process.start codec cfg threshold boots disk) moves process) :
    (∀ move ∈ moves, ∀ entry, move.before.applied? move.event.2 = some entry →
      move.before.data = stateAt codec history (entry.index - 1)) ∧
    ∀ earlier move later, moves = earlier ++ move :: later →
      ∀ snap, move.before.restored? move.event.2 = some snap →
        ∀ entry ∈ applied earlier, entry.index ≤ snap.index := by
  have invariant : ∀ moves process, (Process.system codec).Trace
      (fun process event => Genuine codec history process event.2 ∧ Settled process event.2)
      (Process.start codec cfg threshold boots disk) moves process →
      Ordered codec history (applied moves) process := by
    intro moves process trace
    refine trace.record (fun moves process => Ordered codec history (applied moves) process)
      (.start backed cfg threshold boots) ?_
    intro moves process event after ordered permitted stepped
    rw [applied_snoc moves ⟨process, event, after⟩]
    exact ordered.step permitted.1 permitted.2 stepped
  refine ⟨?_, ?_⟩
  · intro move member entry applies
    obtain ⟨prior, reached, _⟩ := trace.of_move member
    have machine := (invariant prior move.before reached).machine
    rw [loop_of_applied? applies] at machine
    obtain ⟨count, found, _, current, _⟩ := machine
    rw [current, History.index_eq found, Nat.add_sub_cancel]
  · intro earlier move later parts snap restores
    have machine := (invariant earlier move.before (trace.split parts).1).machine
    rw [loop_of_restored? restores] at machine
    exact machine.1

def setThenDeleteHistory : History where
  entries := setThenDelete
  indexed position entry found := by
    match position with
    | 0 => cases found; rfl
    | 1 => cases found; rfl
    | _ + 2 => simp [setThenDelete] at found
  stamped := by decide

/-- The leader sends a snapshot of the first entry, then the second entry. -/
def snapshotThenEntry : List (Nat × Input) := [
  (0, .installSnapshot {
    term := 1
    leaderID := "node2"
    lastIncludedIndex := 1
    lastIncludedTerm := 1
    data := [] } true),
  (0, .appendEntries {
    term := 1
    leaderID := "node2"
    prevLogIndex := 1
    prevLogTerm := 1
    entries := setThenDelete.drop 1
    leaderCommit := 2 })]

theorem backed_empty (codec : Codec) (history : History) : Backed codec history {} where
  follows := ⟨(fun state found => by cases found), Nat.zero_le _⟩
  data file found := by cases found

/-- `select` takes the snapshot first. -/
theorem restore_apply_ordering_follower :
    ∃ moves process, (Process.system Codec.sample).Trace
        (fun process event => Genuine Codec.sample setThenDeleteHistory process event.2 ∧
          Settled process event.2) (follower 100) moves process ∧
      applied moves ≠ [] ∧
      (∀ move ∈ moves, ∀ entry, move.before.applied? move.event.2 = some entry →
        move.before.data = stateAt Codec.sample setThenDeleteHistory (entry.index - 1)) ∧
      ∀ earlier move later, moves = earlier ++ move :: later →
        ∀ snap, move.before.restored? move.event.2 = some snap →
          ∀ entry ∈ applied earlier, entry.index ≤ snap.index := by
  obtain ⟨moves, process, trace, checked⟩ := (Process.system Codec.sample).exists_trace
    (fun process event => Genuine Codec.sample setThenDeleteHistory process event.2 ∧
      Settled process event.2) (follower 100)
    (snapshotThenEntry ++ [(0, .applyLoop .snapshot), (0, .applyLoop .snapshot),
      (0, .applyLoop .snapshot), (0, .applyLoop .commit), (0, .applyLoop .commit),
      (0, .applyLoop .commit)])
    (fun moves _ => !(applied moves).isEmpty) (by decide +kernel)
  exact ⟨moves, process, trace, by simpa using checked,
    restore_apply_ordering (backed_empty _ _) trace⟩

/-- `select` takes the commit notification first: the deletion runs on the empty
map, and the older snapshot is restored over it. -/
theorem restore_after_later_apply :
    ∃ moves process, (Process.system Codec.sample).Trace
        (fun process event => Genuine Codec.sample setThenDeleteHistory process event.2)
        (follower 100) moves process ∧
      (∃ move ∈ moves, ∃ entry, move.before.applied? move.event.2 = some entry ∧
        move.before.data ≠ stateAt Codec.sample setThenDeleteHistory (entry.index - 1)) ∧
      ∃ earlier move later, moves = earlier ++ move :: later ∧
        ∃ snap, move.before.restored? move.event.2 = some snap ∧
          ∃ entry ∈ applied earlier, snap.index < entry.index := by
  obtain ⟨moves, process, trace, checked⟩ := (Process.system Codec.sample).exists_trace
    (fun process event => Genuine Codec.sample setThenDeleteHistory process event.2)
    (follower 100)
    (snapshotThenEntry ++ [(0, .applyLoop .commit), (0, .applyLoop .commit),
      (0, .applyLoop .commit), (0, .applyLoop .commit), (0, .applyLoop .commit),
      (0, .applyLoop .snapshot), (0, .applyLoop .snapshot)])
    (fun moves _ => (moves.any fun move => (move.before.applied? move.event.2).any fun entry =>
        move.before.data ≠ stateAt Codec.sample setThenDeleteHistory (entry.index - 1)) &&
      (applied moves.dropLast).any (fun entry => entry.index = 2) &&
      moves.getLast?.any fun move => (move.before.restored? move.event.2).any fun snap =>
        snap.index = 1)
    (by decide +kernel)
  simp only [Bool.and_eq_true, List.any_eq_true, Option.any_eq_true, decide_eq_true_eq] at checked
  obtain ⟨⟨⟨move, member, entry, applies, wrong⟩, later, done, second⟩,
    last, ends, snap, restores, first⟩ := checked
  refine ⟨moves, process, trace, ⟨move, member, entry, applies, wrong⟩,
    moves.dropLast, last, [], (List.dropLast_append_getLast? last ends).symm, snap, restores,
    later, done, ?_⟩
  omega

end RaftGo.KvStore
