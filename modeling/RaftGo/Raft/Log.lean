import Mathlib.Data.List.Infix

/-! The replicated log of a single node (`raft/log.go`). Indices and terms are
natural numbers: a run would need 2^64 entries or elections to tell them from
the `uint64` of the source. -/

namespace RaftGo.Raft

abbrev Bytes := List UInt8

/-- `ConfigOp` of a log entry; ordinary entries leave it empty. -/
inductive ConfigOp where
  | unset
  | add
  | remove
deriving DecidableEq, Repr

structure LogEntry where
  term : Nat := 0
  index : Nat := 0
  command : Bytes := []
  isConfig : Bool := false
  configOp : ConfigOp := .unset
  configPeer : String := ""
deriving DecidableEq, Repr

/-- `entries[0]` is always present: it is the sentinel, at the index and term of
the last compacted entry. -/
structure Log where
  sentinel : LogEntry
  rest : List LogEntry
deriving DecidableEq, Repr

namespace Log

def entries (log : Log) : List LogEntry := log.sentinel :: log.rest

def new : Log := ⟨{}, []⟩

def snapshotIndex (log : Log) : Nat := log.sentinel.index

def snapshotTerm (log : Log) : Nat := log.sentinel.term

def append (log : Log) (entries : List LogEntry) : Log :=
  { log with rest := log.rest ++ entries }

/-- The entry at a logical index, the zero entry outside the log. -/
def get (log : Log) (index : Nat) : LogEntry :=
  let offset := log.snapshotIndex
  if index < offset ∨ log.entries.length ≤ index - offset then {}
  else log.entries[index - offset]?.getD {}

def lastIndex (log : Log) : Nat := log.snapshotIndex + log.entries.length - 1

def lastTerm (log : Log) : Nat := (log.rest.getLast?.getD log.sentinel).term

def truncateFrom (log : Log) (index : Nat) : Log :=
  let offset := log.snapshotIndex
  if index ≤ offset then log
  else
    let physical := index - offset
    -- entries[:physical] keeps the sentinel, since physical is at least one
    if physical < log.entries.length then { log with rest := log.rest.take (physical - 1) }
    else log

def compactTo (log : Log) (index term : Nat) : Log :=
  let offset := log.snapshotIndex
  if index ≤ offset then log
  else
    let physical := index - offset
    if log.entries.length ≤ physical then ⟨{ index, term }, []⟩
    else ⟨{ index, term }, log.rest.drop physical⟩

def firstIndexForTerm (log : Log) (term : Nat) : Nat :=
  match log.entries.find? (fun entry => entry.term = term) with
  | some entry => entry.index
  | none => 0

/-- Entries in the half-open logical range from `low` to `high`. -/
def slice (log : Log) (low high : Nat) : List LogEntry :=
  let offset := log.snapshotIndex
  let low := if low ≤ offset then offset + 1 else low
  if high ≤ low then []
  else if log.entries.length ≤ low - offset then []
  else (log.entries.take (min (high - offset) log.entries.length)).drop (low - offset)

/-- The largest index from `index` down to one whose entry has the term, zero if
there is none: the search loop of `sendToPeer`. -/
def lastIndexForTerm (log : Log) (term : Nat) : Nat → Nat
  | 0 => 0
  | index + 1 => if (log.get (index + 1)).term = term then index + 1
      else log.lastIndexForTerm term index

@[simp] theorem length_entries (log : Log) : log.entries.length = log.rest.length + 1 := rfl

@[simp] theorem snapshotIndex_append (log : Log) (entries : List LogEntry) :
    (log.append entries).snapshotIndex = log.snapshotIndex := rfl

@[simp] theorem rest_append (log : Log) (entries : List LogEntry) :
    (log.append entries).rest = log.rest ++ entries := rfl

@[simp] theorem sentinel_append (log : Log) (entries : List LogEntry) :
    (log.append entries).sentinel = log.sentinel := rfl

@[simp] theorem sentinel_truncateFrom (log : Log) (index : Nat) :
    (log.truncateFrom index).sentinel = log.sentinel := by
  unfold truncateFrom
  dsimp only
  split
  · rfl
  · split <;> rfl

theorem snapshotIndex_truncateFrom (log : Log) (index : Nat) :
    (log.truncateFrom index).snapshotIndex = log.snapshotIndex :=
  congrArg LogEntry.index (log.sentinel_truncateFrom index)

theorem lastIndex_eq (log : Log) : log.lastIndex = log.snapshotIndex + log.rest.length := by
  simp only [lastIndex, length_entries]
  omega

theorem lastIndex_append (log : Log) (entries : List LogEntry) :
    (log.append entries).lastIndex = log.lastIndex + entries.length := by
  rw [lastIndex_eq, lastIndex_eq, snapshotIndex_append, rest_append, List.length_append]
  omega

theorem get_of_lt (log : Log) {index : Nat} (compacted : index < log.snapshotIndex) :
    log.get index = {} := by
  simp [get, compacted]

theorem get_snapshotIndex (log : Log) : log.get log.snapshotIndex = log.sentinel := by
  simp [get, entries]

theorem get_of_gt (log : Log) {index : Nat} (above : log.snapshotIndex < index) :
    log.get index = log.rest[index - log.snapshotIndex - 1]?.getD {} := by
  obtain ⟨offset, rfl⟩ : ∃ offset, index = log.snapshotIndex + offset + 1 :=
    ⟨index - log.snapshotIndex - 1, by omega⟩
  have position : log.snapshotIndex + offset + 1 - log.snapshotIndex = offset + 1 := by omega
  simp only [get, position, length_entries]
  split
  · rename_i outside
    have missing : log.rest.length ≤ offset := by omega
    simp [List.getElem?_eq_none missing]
  · simp [entries]

/-- An entry read behind the marker is in the log, or it is the empty one. -/
theorem get_mem_rest (log : Log) {index : Nat} (above : log.snapshotIndex < index) :
    log.get index ∈ log.rest ∨ log.get index = {} := by
  rw [log.get_of_gt above]
  cases found : log.rest[index - log.snapshotIndex - 1]? with
  | none => exact .inr rfl
  | some entry => exact .inl (List.mem_of_getElem? found)

theorem get_of_lastIndex_lt (log : Log) {index : Nat} (beyond : log.lastIndex < index) :
    log.get index = {} := by
  rw [lastIndex_eq] at beyond
  rw [log.get_of_gt (by omega), List.getElem?_eq_none (by omega), Option.getD_none]

theorem truncateFrom_of_le (log : Log) {index : Nat} (covered : index ≤ log.snapshotIndex) :
    log.truncateFrom index = log :=
  if_pos covered

theorem truncateFrom_rest (log : Log) {index : Nat} (above : log.snapshotIndex < index) :
    (log.truncateFrom index).rest = log.rest.take (index - log.snapshotIndex - 1) := by
  unfold truncateFrom
  simp only [Nat.not_le.mpr above, ↓reduceIte, length_entries]
  by_cases inside : index - log.snapshotIndex < log.rest.length + 1
  · simp [inside]
  · simp only [inside, ↓reduceIte]
    rw [List.take_of_length_le (by omega)]

theorem get_append (log : Log) (entries : List LogEntry) {index : Nat}
    (above : log.snapshotIndex < index) (inside : index ≤ log.lastIndex) :
    (log.append entries).get index = log.get index := by
  have same : (log.append entries).snapshotIndex = log.snapshotIndex := rfl
  rw [lastIndex_eq] at inside
  rw [get_of_gt _ (same ▸ above), get_of_gt _ above, same, rest_append,
    List.getElem?_append_left (by omega)]

theorem get_truncateFrom (log : Log) {index cut : Nat} (above : log.snapshotIndex < index)
    (before : index < cut) : (log.truncateFrom cut).get index = log.get index := by
  have same := log.snapshotIndex_truncateFrom cut
  rw [get_of_gt _ (same ▸ above), get_of_gt _ above, same, log.truncateFrom_rest (by omega),
    List.getElem?_take_of_lt (by omega)]

theorem compactTo_of_le (log : Log) {index : Nat} (covered : index ≤ log.snapshotIndex)
    (term : Nat) : log.compactTo index term = log :=
  if_pos covered

theorem compactTo_of_lt (log : Log) {index : Nat} (ahead : log.snapshotIndex < index)
    (term : Nat) : log.compactTo index term =
      ⟨{ index, term }, log.rest.drop (index - log.snapshotIndex)⟩ := by
  unfold compactTo
  simp only [Nat.not_le.mpr ahead, ↓reduceIte]
  split
  · rename_i beyond
    rw [length_entries] at beyond
    rw [List.drop_of_length_le (by omega)]
  · rfl

theorem snapshotIndex_compactTo (log : Log) (index term : Nat) :
    (log.compactTo index term).snapshotIndex = max log.snapshotIndex index := by
  rcases Nat.lt_or_ge log.snapshotIndex index with ahead | covered
  · rw [log.compactTo_of_lt ahead, Nat.max_eq_right (Nat.le_of_lt ahead)]
    rfl
  · rw [log.compactTo_of_le covered, Nat.max_eq_left covered]

theorem lastIndex_compactTo (log : Log) (index term : Nat) :
    (log.compactTo index term).lastIndex = max log.lastIndex index := by
  rw [lastIndex_eq, lastIndex_eq, snapshotIndex_compactTo]
  rcases Nat.lt_or_ge log.snapshotIndex index with ahead | covered
  · rw [log.compactTo_of_lt ahead, List.length_drop]
    omega
  · rw [log.compactTo_of_le covered]
    omega

theorem get_compactTo (log : Log) {index bound : Nat} (above : log.snapshotIndex < index)
    (behind : bound < index) (term : Nat) : (log.compactTo bound term).get index = log.get index := by
  rcases Nat.lt_or_ge log.snapshotIndex bound with ahead | covered
  · rw [log.compactTo_of_lt ahead]
    have marker : (⟨{ index := bound, term := term }, log.rest.drop (bound - log.snapshotIndex)⟩ :
        Log).snapshotIndex = bound := rfl
    have position : bound - log.snapshotIndex + (index - bound - 1) =
        index - log.snapshotIndex - 1 := by omega
    rw [get_of_gt _ (marker ▸ behind), get_of_gt _ above, marker, List.getElem?_drop, position]
  · rw [log.compactTo_of_le covered]

/-- A later compaction makes an earlier one superfluous. -/
theorem compactTo_compactTo (log : Log) {first second : Nat} (later : first < second)
    (ahead : log.snapshotIndex < second) (term last : Nat) :
    (log.compactTo first term).compactTo second last = log.compactTo second last := by
  rcases Nat.lt_or_ge log.snapshotIndex first with above | covered
  · rw [log.compactTo_of_lt above, log.compactTo_of_lt ahead, compactTo_of_lt _ later]
    have position : first - log.snapshotIndex + (second - first) = second - log.snapshotIndex := by
      omega
    rw [List.drop_drop, ← position]
    rfl
  · rw [log.compactTo_of_le covered]

theorem slice_clamp (log : Log) (low high : Nat) :
    log.slice low high = log.slice (max low (log.snapshotIndex + 1)) high := by
  have clamped : (if low ≤ log.snapshotIndex then log.snapshotIndex + 1 else low) =
      max low (log.snapshotIndex + 1) := by
    split <;> omega
  have behind : ¬max low (log.snapshotIndex + 1) ≤ log.snapshotIndex := by omega
  simp only [slice, clamped, behind, ↓reduceIte]

theorem slice_rest (log : Log) {low high : Nat} (above : log.snapshotIndex < low) :
    log.slice low high =
      (log.rest.take (high - log.snapshotIndex - 1)).drop (low - log.snapshotIndex - 1) := by
  unfold slice
  simp only [Nat.not_le.mpr above, ↓reduceIte, length_entries]
  split
  · rename_i empty
    rw [List.drop_of_length_le]
    simp only [List.length_take]
    omega
  · split
    · rename_i _ short
      rw [List.drop_of_length_le]
      simp only [List.length_take]
      omega
    · rename_i nonempty inside
      obtain ⟨offset, shift⟩ : ∃ offset, low - log.snapshotIndex = offset + 1 :=
        ⟨low - log.snapshotIndex - 1, by omega⟩
      obtain ⟨bound, limit⟩ : ∃ bound,
          min (high - log.snapshotIndex) (log.rest.length + 1) = bound + 1 :=
        ⟨min (high - log.snapshotIndex) (log.rest.length + 1) - 1, by omega⟩
      rw [limit, shift, entries, List.take_succ_cons, List.drop_succ_cons, Nat.add_sub_cancel]
      rcases Nat.le_total (high - log.snapshotIndex - 1) log.rest.length with within | beyond
      · congr 2
        omega
      · rw [List.take_of_length_le (by omega), List.take_of_length_le (by omega)]

theorem slice_to_end (log : Log) {next : Nat} (above : log.snapshotIndex < next) :
    log.slice next (log.lastIndex + 1) = log.rest.drop (next - (log.snapshotIndex + 1)) := by
  rw [log.slice_rest above, log.lastIndex_eq, List.take_of_length_le (by omega), Nat.sub_sub]

end Log

end RaftGo.Raft
