import RaftGo.KvStore.Results

/-! Reads at one node. `Get` bypasses the log and reads the map under a lock of its
own; what it finds is the result of the committed commands up to some point, which
never moves back and lies behind every write that has returned. -/

namespace RaftGo.KvStore

open Raft Library

/-- The committed entries the apply loop has still to take. -/
def Process.unapplied (process : Process) : List LogEntry :=
  (List.range' (process.node.lastApplied + 1)
    (process.node.commitIndex - process.node.lastApplied)).map process.node.log.get

/-- The entries a node has found committed since it was started. -/
def committed (moves : List (Move Process (Nat × Input))) (process : Process) : List LogEntry :=
  taken moves ++ process.unapplied

section

variable {codec : Codec} {start process after : Process} {now : Nat} {input : Input}
  {moves : List (Move Process (Nat × Input))}

theorem unapplied_grows (applied : after.node.lastApplied = process.node.lastApplied)
    (ahead : process.node.commitIndex ≤ after.node.commitIndex)
    (kept : ∀ index, process.node.lastApplied < index → index ≤ process.node.commitIndex →
      after.node.log.get index = process.node.log.get index) :
    process.unapplied <+: after.unapplied := by
  have longer : after.node.commitIndex - after.node.lastApplied =
      (process.node.commitIndex - process.node.lastApplied) +
        (after.node.commitIndex - max process.node.commitIndex process.node.lastApplied) := by
    omega
  unfold Process.unapplied
  rw [applied] at longer ⊢
  rw [longer, ← List.range'_append_1, List.map_append]
  refine ⟨_, congrArg (· ++ _) ?_⟩
  refine List.map_congr_left fun index member => ?_
  rw [List.mem_range'_1] at member
  exact (kept index (by omega) (by omega)).symm

theorem unapplied_take (behind : process.node.lastApplied < process.node.commitIndex)
    (applied : after.node.lastApplied = process.node.lastApplied + 1)
    (same : after.node.commitIndex = process.node.commitIndex)
    (log : after.node.log = process.node.log) :
    process.unapplied =
      process.node.log.get (process.node.lastApplied + 1) :: after.unapplied := by
  have count : process.node.commitIndex - process.node.lastApplied =
      after.node.commitIndex - after.node.lastApplied + 1 := by omega
  unfold Process.unapplied
  rw [count, List.range'_succ, List.map_cons, applied, log]

/-- Nothing committed is ever taken back. -/
theorem committed_step (sequenced : Sequenced codec start moves process)
    (inOrder : InOrder process.node) (noInstall : input.installs = false)
    (harmless : Harmless process input) (stepped : process.step codec now input = some after) :
    committed moves process <+: committed (moves ++ [⟨process, (now, input), after⟩]) after := by
  have later : Sequenced codec start (moves ++ [⟨process, (now, input), after⟩]) after :=
    sequenced.step noInstall stepped
  have boundary := inOrder.boundary
  have ahead := commitIndex_step inOrder harmless stepped
  -- the loop takes an entry exactly when `lastApplied` moves
  have idle (same : after.node.lastApplied = process.node.lastApplied)
      (kept : ∀ index, process.node.lastApplied < index → index ≤ process.node.commitIndex →
        after.node.log.get index = process.node.log.get index) :
      committed moves process <+: committed (moves ++ [⟨process, (now, input), after⟩]) after := by
    have count := later.count
    rw [same, sequenced.count, taken_snoc, List.length_append] at count
    dsimp only at count
    have none : (process.taken? input).toList = [] := List.eq_nil_of_length_eq_zero (by omega)
    unfold committed
    rw [taken_snoc, none, List.append_nil, List.prefix_append_right_inj]
    exact unapplied_grows same ahead kept
  cases Process.progress_step stepped with
  | rests same => exact idle same.lastApplied fun index _ _ => by rw [same.log]
  | appends entry leads index term log commitIndex lastApplied =>
    refine idle lastApplied fun index above inside => ?_
    rw [log, Log.get_append _ _ (Nat.lt_of_le_of_lt boundary above)
      (Nat.le_trans inside inOrder.committed)]
  | merges args request current agrees log commitIndex lastApplied =>
    subst request
    refine idle lastApplied fun index above inside => ?_
    have kept := process.node.log.mergeEntries_keeps_agreed inOrder.committed (harmless current)
    rw [log, kept.get index (Nat.lt_of_le_of_lt boundary above) inside]
  | commits leads log ahead own lastApplied => exact idle lastApplied fun index _ _ => by rw [log]
  | compacts term ahead log commitIndex lastApplied =>
    refine idle lastApplied fun index above inside => ?_
    rw [log, Log.get_compactTo _ (Nat.lt_of_le_of_lt boundary above) above]
  | installs args saved request ahead log commitIndex lastApplied =>
    subst request
    cases noInstall
  | takes behind took log commitIndex lastApplied =>
    unfold committed
    rw [taken_snoc, took, unapplied_take behind lastApplied commitIndex log]
    simp

end

/-- What a run of one node has applied, and what it has found committed. -/
structure Consistent (codec : Codec) (start : Process) (command : Nat → Nat → Bytes)
    (moves : List (Move Process (Nat × Input))) (process : Process) : Prop where
  sequenced : Sequenced codec start moves process
  inOrder : InOrder process.node
  sound : Sound codec command moves process

namespace Consistent

variable {codec : Codec} {start process after : Process} {command : Nat → Nat → Bytes}
  {moves : List (Move Process (Nat × Input))}

theorem step {event : Nat × Input} (consistent : Consistent codec start command moves process)
    (noInstall : event.2.installs = false) (harmless : Harmless process event.2)
    (determines : Determines command process)
    (stepped : (Process.system codec).step process event = some after) :
    Consistent codec start command (moves ++ [⟨process, event, after⟩]) after where
  sequenced := consistent.sequenced.step noInstall stepped
  inOrder := consistent.inOrder.step harmless stepped
  sound := consistent.sound.step determines stepped

end Consistent

/-- A `Get` in a run of some length: it is called, reads the map under the lock, and
returns. -/
structure Read (length : Nat) where
  called : Nat
  locked : Nat
  returned : Nat
  called_le : called ≤ locked
  locked_le : locked ≤ returned
  returned_le : returned ≤ length

/-- The number of commands a read has seen. -/
def Read.seen {moves : List (Move Process (Nat × Input))} (read : Read moves.length) : Nat :=
  (applied (moves.take read.locked)).length

end RaftGo.KvStore
