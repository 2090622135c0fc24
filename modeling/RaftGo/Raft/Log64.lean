import RaftGo.Library.Word
import RaftGo.Raft.Log

/-! The methods of `raft/log.go` down to the machine: indices are `uint64`, sums and
differences of them wrap around, and the slice is accessed with bounds checks. Where indices
fit, this is the log of `RaftGo.Raft.Log`. -/

namespace RaftGo.Raft

open Library Library.Wrapping

/-- The struct as the source has it. Nothing but the methods keeps the sentinel in place. -/
structure Log64 where
  entries : List LogEntry
deriving DecidableEq, Repr

namespace Log64

variable (log : Log64)

def snapshotIndex : Wrapping Nat := do
  return (← element log.entries 0).index

def get (index : Nat) : Wrapping LogEntry := do
  let offset ← log.snapshotIndex
  if index < offset then
    return {}
  else if log.entries.length ≤ (← sub 64 index offset) then
    return {}
  else
    element log.entries (← sub 64 index offset)

def lastIndex : Wrapping Nat := do
  let offset ← log.snapshotIndex
  sub 64 (← add 64 offset log.entries.length) 1

def truncateFrom (index : Nat) : Wrapping Log64 := do
  let offset ← log.snapshotIndex
  if index ≤ offset then
    return log
  else
    let physical ← sub 64 index offset
    if physical < log.entries.length then
      return { entries := ← subslice log.entries 0 physical }
    else
      return log

def compactTo (index term : Nat) : Wrapping Log64 := do
  let offset ← log.snapshotIndex
  if index ≤ offset then
    return log
  else
    let physical ← sub 64 index offset
    if log.entries.length ≤ physical then
      return { entries := [{ index, term }] }
    else
      -- the capacity of the new slice
      let _ ← sub 64 log.entries.length physical
      let remaining ← subslice log.entries (← add 64 physical 1) log.entries.length
      return { entries := { index, term } :: remaining }

/-- `from` in `slice`, moved behind the snapshot boundary. -/
def clamp (low offset : Nat) : Wrapping Nat :=
  if low ≤ offset then add 64 offset 1 else return low

def slice (low high : Nat) : Wrapping (List LogEntry) := do
  let offset ← log.snapshotIndex
  let low ← clamp low offset
  if high ≤ low then
    return []
  else
    let physFrom ← sub 64 low offset
    let physTo ← sub 64 high offset
    if log.entries.length ≤ physFrom then
      return []
    else
      subslice log.entries physFrom
        (if log.entries.length < physTo then log.entries.length else physTo)

end Log64

namespace Log

variable {log : Log} {index low high : Nat} {wrapped : Bool}

/-- The log as it lies in memory. -/
def raw (log : Log) : Log64 := ⟨log.entries⟩

theorem entries_raw (log : Log) : log.raw.entries = log.entries := rfl

/-- The index behind the last one is a `uint64`, or the log has been compacted to the last
`uint64` there is. -/
def Fits (log : Log) : Prop :=
  log.lastIndex + 1 < 2 ^ 64 ∨ log.snapshotIndex + 1 = 2 ^ 64 ∧ log.rest = []

theorem length_rest_truncateFrom_le (log : Log) (index : Nat) :
    (log.truncateFrom index).rest.length ≤ log.rest.length := by
  rcases Nat.lt_or_ge log.snapshotIndex index with above | covered
  · rw [log.truncateFrom_rest above]
    exact List.length_take_le' _ _
  · rw [log.truncateFrom_of_le covered]

namespace Fits

theorem lastIndex_lt (fits : log.Fits) : log.lastIndex < 2 ^ 64 := by
  rcases fits with room | ⟨top, empty⟩
  · omega
  · rw [lastIndex_eq, empty, List.length_nil]
    omega

theorem top_iff (fits : log.Fits) :
    log.snapshotIndex + 1 = 2 ^ 64 ↔ log.lastIndex + 1 = 2 ^ 64 := by
  have reach := log.lastIndex_eq
  rcases fits with room | ⟨top, empty⟩
  · omega
  · rw [empty, List.length_nil] at reach
    omega

theorem truncateFrom (fits : log.Fits) (index : Nat) : (log.truncateFrom index).Fits := by
  have marker := log.snapshotIndex_truncateFrom index
  have shorter := log.length_rest_truncateFrom_le index
  rcases fits with room | ⟨top, empty⟩
  · refine .inl ?_
    rw [lastIndex_eq] at room ⊢
    omega
  · rw [empty, List.length_nil, Nat.le_zero, List.length_eq_zero_iff] at shorter
    exact .inr ⟨by rw [marker, top], shorter⟩

theorem compactTo (fits : log.Fits) (word : index < 2 ^ 64) (term : Nat) :
    (log.compactTo index term).Fits := by
  rcases Nat.lt_or_ge log.snapshotIndex index with ahead | covered
  · have reach := log.lastIndex_compactTo index term
    have bounded := fits.lastIndex_lt
    by_cases top : index + 1 = 2 ^ 64
    · rw [log.compactTo_of_lt ahead]
      refine .inr ⟨top, List.drop_of_length_le ?_⟩
      rw [lastIndex_eq] at bounded
      omega
    · rcases fits with room | ⟨ceiling, _⟩
      · exact .inl (by omega)
      · omega
  · rw [log.compactTo_of_le covered]
    exact fits

theorem top_truncateFrom (fits : log.Fits) (index : Nat) :
    (log.truncateFrom index).lastIndex + 1 = 2 ^ 64 ↔ log.lastIndex + 1 = 2 ^ 64 := by
  -- the marker stays, and at the last index there is nothing else
  rw [← (fits.truncateFrom index).top_iff, ← fits.top_iff, log.snapshotIndex_truncateFrom]

theorem top_compactTo (fits : log.Fits) (word : index < 2 ^ 64) (term : Nat) :
    (log.compactTo index term).lastIndex + 1 = 2 ^ 64 ↔
      log.lastIndex + 1 = 2 ^ 64 ∨ index + 1 = 2 ^ 64 := by
  have bounded := fits.lastIndex_lt
  rw [log.lastIndex_compactTo]
  omega

end Fits

theorem run_snapshotIndex (log : Log) :
    log.raw.snapshotIndex.run wrapped = some (log.snapshotIndex, wrapped) := rfl

theorem run_get (log : Log) (word : index < 2 ^ 64) :
    (log.raw.get index).run wrapped = some (log.get index, wrapped) := by
  unfold Log64.get Log.get
  rw [run_then log.run_snapshotIndex, entries_raw]
  by_cases compacted : index < log.snapshotIndex
  · rw [if_pos compacted, if_pos (.inl compacted)]
    rfl
  · have physical : (sub 64 index log.snapshotIndex).run wrapped =
        some (index - log.snapshotIndex, wrapped) :=
      run_sub (Nat.le_of_not_lt compacted) word
    rw [if_neg compacted, run_then physical]
    by_cases beyond : log.entries.length ≤ index - log.snapshotIndex
    · rw [if_pos beyond, if_pos (.inr beyond)]
      rfl
    · have found := List.getElem?_eq_getElem (Nat.lt_of_not_le beyond)
      rw [if_neg beyond, run_then physical, if_neg (not_or.mpr ⟨compacted, beyond⟩), found]
      exact run_element found

/-- The sum on the way to the last index may wrap around; the difference takes it back. -/
theorem run_lastIndex (fits : log.Fits) : log.raw.lastIndex.run wrapped =
    some (log.lastIndex, wrapped || decide (log.lastIndex + 1 = 2 ^ 64)) := by
  unfold Log64.lastIndex
  have bounded := fits.lastIndex_lt
  have sum : log.snapshotIndex + log.raw.entries.length = log.lastIndex + 1 := by
    rw [entries_raw, length_entries, lastIndex_eq, Nat.add_assoc]
  rw [run_then log.run_snapshotIndex]
  by_cases top : log.lastIndex + 1 = 2 ^ 64
  · rw [run_then (run_add_wraps (sum.trans top)), run_sub_wraps Nat.zero_lt_one (by omega)]
    simp only [top, decide_true, Bool.or_true]
    congr 2
    omega
  · have room : log.snapshotIndex + log.raw.entries.length < 2 ^ 64 := by omega
    rw [run_then (run_add room), run_sub (by omega) room, sum, Nat.add_sub_cancel,
      decide_eq_false top, Bool.or_false]

theorem run_truncateFrom (log : Log) (word : index < 2 ^ 64) :
    (log.raw.truncateFrom index).run wrapped = some ((log.truncateFrom index).raw, wrapped) := by
  unfold Log64.truncateFrom Log.truncateFrom
  rw [run_then log.run_snapshotIndex, entries_raw]
  by_cases covered : index ≤ log.snapshotIndex
  · rw [if_pos covered, if_pos covered]
    rfl
  · rw [if_neg covered, if_neg covered, run_then (run_sub (by omega) word)]
    by_cases inside : index - log.snapshotIndex < log.entries.length
    · have kept : (log.entries.take (index - log.snapshotIndex)).drop 0 =
          log.sentinel :: log.rest.take (index - log.snapshotIndex - 1) := by
        obtain ⟨offset, physical⟩ : ∃ offset, index - log.snapshotIndex = offset + 1 :=
          ⟨index - log.snapshotIndex - 1, by omega⟩
        rw [physical]
        rfl
      rw [if_pos inside, if_pos inside,
        run_then (run_subslice (Nat.zero_le _) (Nat.le_of_lt inside)), kept]
      rfl
    · rw [if_neg inside, if_neg inside]
      rfl

theorem run_compactTo (fits : log.Fits) (word : index < 2 ^ 64) (term : Nat) :
    (log.raw.compactTo index term).run wrapped =
      some ((log.compactTo index term).raw, wrapped) := by
  unfold Log64.compactTo Log.compactTo
  rw [run_then log.run_snapshotIndex, entries_raw]
  by_cases covered : index ≤ log.snapshotIndex
  · rw [if_pos covered, if_pos covered]
    rfl
  · rw [if_neg covered, if_neg covered, run_then (run_sub (by omega) word)]
    by_cases beyond : log.entries.length ≤ index - log.snapshotIndex
    · rw [if_pos beyond, if_pos beyond]
      rfl
    · -- a log at the last `uint64` has nothing to compact, so there is room behind the end
      have room : log.entries.length < 2 ^ 64 := by
        rcases fits with room | ⟨top, _⟩
        · rw [lastIndex_eq] at room
          rw [length_entries]
          omega
        · omega
      rw [if_neg beyond, if_neg beyond, run_then (run_sub (by omega) room),
        run_then (run_add (by omega)), run_then (run_subslice (by omega) (Nat.le_refl _)),
        List.take_length]
      rfl

/-- At the last `uint64` the index behind the marker wraps around to zero. The log is empty
there, and the range is found to be empty all the same. -/
theorem run_slice_top (top : log.snapshotIndex + 1 = 2 ^ 64) (empty : log.rest = [])
    (lowWord : low < 2 ^ 64) (highWord : high < 2 ^ 64) :
    (log.raw.slice low high).run wrapped = some (log.slice low high, true) := by
  have nothing : log.slice low high = [] := by
    have covered : low ≤ log.snapshotIndex := by omega
    have short : high ≤ log.snapshotIndex + 1 := by omega
    simp [Log.slice, covered, short]
  have single : log.entries.length = 1 := by rw [length_entries, empty, List.length_nil]
  have next : (Log64.clamp low log.snapshotIndex).run wrapped = some (0, true) := by
    rw [Log64.clamp, if_pos (by omega)]
    exact run_add_wraps top
  have physFrom : (sub 64 0 log.snapshotIndex).run true =
      some (0 + (2 ^ 64 - log.snapshotIndex), true) := run_sub_wraps (by omega) (by omega)
  have physTo : (sub 64 high log.snapshotIndex).run true =
      some ((high + (2 ^ 64 - log.snapshotIndex)) % 2 ^ 64, true) := rfl
  unfold Log64.slice
  rw [run_then log.run_snapshotIndex, entries_raw, run_then next, nothing]
  by_cases none : high ≤ 0
  · rw [if_pos none]
    rfl
  · rw [if_neg none, run_then physFrom, run_then physTo, if_pos (by omega)]
    rfl

theorem run_slice_room (room : log.lastIndex + 1 < 2 ^ 64) (highWord : high < 2 ^ 64) :
    (log.raw.slice low high).run wrapped = some (log.slice low high, wrapped) := by
  have marker : log.snapshotIndex + 1 < 2 ^ 64 := by
    rw [lastIndex_eq] at room
    omega
  unfold Log64.slice Log.slice
  generalize clamped : (if low ≤ log.snapshotIndex then log.snapshotIndex + 1 else low) = start
  have next : (Log64.clamp low log.snapshotIndex).run wrapped = some (start, wrapped) := by
    rw [← clamped, Log64.clamp]
    split
    · exact run_add marker
    · rfl
  have above : log.snapshotIndex < start := by
    rw [← clamped]
    split <;> omega
  rw [run_then log.run_snapshotIndex, entries_raw, run_then next]
  dsimp only
  rw [clamped]
  by_cases none : high ≤ start
  · rw [if_pos none, if_pos none]
    rfl
  · rw [if_neg none, if_neg none, run_then (run_sub (by omega) (by omega)),
      run_then (run_sub (by omega) highWord)]
    by_cases beyond : log.entries.length ≤ start - log.snapshotIndex
    · rw [if_pos beyond, if_pos beyond]
      rfl
    · have limit : (if log.entries.length < high - log.snapshotIndex then log.entries.length
          else high - log.snapshotIndex) = min (high - log.snapshotIndex) log.entries.length := by
        split <;> omega
      rw [if_neg beyond, if_neg beyond, limit]
      exact run_subslice (by omega) (by omega)

theorem run_slice (fits : log.Fits) (lowWord : low < 2 ^ 64) (highWord : high < 2 ^ 64) :
    (log.raw.slice low high).run wrapped =
      some (log.slice low high, wrapped || decide (log.snapshotIndex + 1 = 2 ^ 64)) := by
  rcases fits with room | ⟨top, empty⟩
  · have marker : log.snapshotIndex + 1 ≠ 2 ^ 64 := by
      rw [lastIndex_eq] at room
      omega
    rw [run_slice_room room highWord, decide_eq_false marker, Bool.or_false]
  · rw [run_slice_top top empty lowWord highWord, decide_eq_true top, Bool.or_true]

end Log

end RaftGo.Raft
