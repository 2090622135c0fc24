import RaftGo.Library.IndexMap
import RaftGo.Raft.Log64
import RaftGo.Raft.WellFormed

/-! The log as a finite map from indices to entries. What the methods of `raft/log.go` do to
the slice is said of the map, and carried over to every sequence of calls. -/

namespace RaftGo

open Raft Library

/-- The entry that carries an index is found at its place. -/
theorem PlacedFrom.find?_eq {first : Nat} {entries : List LogEntry}
    (placed : PlacedFrom first entries) (index : Nat) :
    entries.find? (·.index = index) = if index < first then none else entries[index - first]? := by
  induction entries generalizing first with
  | nil => simp
  | cons entry rest ih =>
    rw [List.find?_cons, placed.head, ih placed.tail]
    rcases Nat.lt_trichotomy index first with before | rfl | behind
    · simp [before, Nat.lt_succ_of_lt before, Nat.ne_of_gt before]
    · simp
    · have position : index - first = index - (first + 1) + 1 := by omega
      simp [Nat.not_lt.mpr (Nat.le_of_lt behind), Nat.not_lt.mpr (Nat.succ_le_of_lt behind),
        Nat.ne_of_lt behind, position]

namespace Raft

/-- A log whose entries stand at the indices they carry. -/
structure PlacedLog extends Log where
  placed : PlacedFrom toLog.snapshotIndex toLog.entries

namespace PlacedLog

variable {log other : PlacedLog} {index : Nat}

theorem eq_of_toLog (same : log.toLog = other.toLog) : log = other := by
  cases log
  cases other
  cases same
  rfl

/-- The map from the indices the entries carry, the sentinel included. -/
def toMap (log : PlacedLog) : IndexMap LogEntry where
  first := log.snapshotIndex
  last := log.lastIndex
  lookup index := log.entries.find? (·.index = index)
  ordered := by
    rw [Log.lastIndex_eq]
    exact Nat.le_add_right _ _
  domain index := by
    rw [log.placed.find?_eq, Log.lastIndex_eq]
    split
    · simp only [Option.isSome_none, Bool.false_eq_true, false_iff]
      omega
    · simp only [isSome_getElem?, Log.length_entries]
      omega

theorem lookup_eq (log : PlacedLog) (index : Nat) : log.toMap.lookup index =
    if index < log.snapshotIndex then none else log.entries[index - log.snapshotIndex]? :=
  log.placed.find?_eq index

theorem lookup_of_lt (compacted : index < log.snapshotIndex) : log.toMap.lookup index = none := by
  rw [lookup_eq, if_pos compacted]

theorem lookup_snapshotIndex (log : PlacedLog) :
    log.toMap.lookup log.snapshotIndex = some log.sentinel := by
  rw [lookup_eq, if_neg (Nat.lt_irrefl _), Nat.sub_self]
  rfl

theorem lookup_of_gt (above : log.snapshotIndex < index) :
    log.toMap.lookup index = log.rest[index - (log.snapshotIndex + 1)]? := by
  have position : index - log.snapshotIndex = index - (log.snapshotIndex + 1) + 1 := by omega
  rw [lookup_eq, if_neg (Nat.not_lt.mpr (Nat.le_of_lt above)), position]
  rfl

theorem get_eq_lookup (log : PlacedLog) (index : Nat) :
    log.get index = (log.toMap.lookup index).getD {} := by
  rcases Nat.lt_trichotomy index log.snapshotIndex with compacted | rfl | above
  · rw [log.get_of_lt compacted, lookup_of_lt compacted, Option.getD_none]
  · rw [log.get_snapshotIndex, log.lookup_snapshotIndex, Option.getD_some]
  · rw [log.get_of_gt above, lookup_of_gt above, Nat.sub_sub]

theorem slice_eq_between (log : PlacedLog) (low high : Nat) :
    log.slice low high = log.toMap.between (max low (log.snapshotIndex + 1))
      (min high (log.lastIndex + 1)) := by
  have reads : ∀ index, log.snapshotIndex + 1 ≤ index →
      log.toMap.lookup index = log.rest[index - (log.snapshotIndex + 1)]? :=
    fun index above => lookup_of_gt above
  have behind : log.snapshotIndex < max low (log.snapshotIndex + 1) := Nat.le_max_right _ _
  rw [log.toMap.between_eq_drop reads behind, log.slice_clamp, log.slice_rest behind,
    Nat.sub_sub, Nat.sub_sub]
  congr 1
  -- the log holds nothing behind its last index
  rcases Nat.le_total high (log.lastIndex + 1) with inside | beyond
  · rw [Nat.min_eq_left inside]
  · rw [Nat.min_eq_right beyond]
    rw [Log.lastIndex_eq] at beyond ⊢
    rw [List.take_of_length_le (by omega), List.take_of_length_le (by omega)]

def truncateFrom (log : PlacedLog) (index : Nat) : PlacedLog :=
  ⟨log.toLog.truncateFrom index, Log.placed_truncateFrom log.placed index⟩

def compactTo (log : PlacedLog) (index term : Nat) : PlacedLog :=
  ⟨log.toLog.compactTo index term, Log.placed_compactTo log.placed index term⟩

theorem toMap_truncateFrom (above : log.snapshotIndex < index) :
    (log.truncateFrom index).toMap = log.toMap.below index above := by
  have marker : (log.truncateFrom index).sentinel = log.sentinel :=
    log.sentinel_truncateFrom index
  have boundary : (log.truncateFrom index).snapshotIndex = log.snapshotIndex :=
    log.snapshotIndex_truncateFrom index
  have rest : (log.truncateFrom index).rest = log.rest.take (index - (log.snapshotIndex + 1)) := by
    rw [← Nat.sub_sub]
    exact log.truncateFrom_rest above
  refine IndexMap.ext boundary ?_ ?_
  · change (log.truncateFrom index).lastIndex = min log.lastIndex (index - 1)
    rw [Log.lastIndex_eq, Log.lastIndex_eq, boundary, rest, List.length_take]
    omega
  · funext key
    change _ = if key < index then log.toMap.lookup key else none
    rcases Nat.lt_trichotomy key log.snapshotIndex with compacted | rfl | behind
    · rw [lookup_of_lt (boundary ▸ compacted), lookup_of_lt compacted, ite_self]
    · rw [if_pos above, lookup_snapshotIndex, ← boundary, lookup_snapshotIndex, marker]
    · rw [lookup_of_gt (boundary ▸ behind), lookup_of_gt behind, boundary, rest,
        List.getElem?_take]
      by_cases kept : key < index
      · rw [if_pos kept, if_pos (by omega)]
      · rw [if_neg kept, if_neg (by omega)]

theorem toMap_compactTo (ahead : log.snapshotIndex < index) (term : Nat) :
    (log.compactTo index term).toMap =
      log.toMap.startAt index { index, term } (Nat.le_of_lt ahead) := by
  have built : (log.compactTo index term).toLog =
      ⟨{ index, term }, log.rest.drop (index - log.snapshotIndex)⟩ := log.compactTo_of_lt ahead term
  have boundary : (log.compactTo index term).snapshotIndex = index := by
    rw [built]
    rfl
  refine IndexMap.ext boundary (log.lastIndex_compactTo index term) ?_
  funext key
  change _ = if key < index then none else if key = index then some { index, term }
    else log.toMap.lookup key
  rcases Nat.lt_trichotomy key index with compacted | rfl | behind
  · rw [lookup_of_lt (boundary.symm ▸ compacted), if_pos compacted]
  · have marker := (log.compactTo key term).lookup_snapshotIndex
    rw [boundary, built] at marker
    rw [if_neg (Nat.lt_irrefl _), if_pos rfl, marker]
  · rw [if_neg (by omega), if_neg (by omega), lookup_of_gt (boundary.symm ▸ behind),
      lookup_of_gt (by omega), boundary, built, List.getElem?_drop]
    congr 1
    omega

end PlacedLog

/-- A call of one of the methods, with arguments a caller can pass. -/
inductive LogOp where
  | get (index : UInt64)
  | slice (low high : UInt64)
  | lastIndex
  | truncateFrom (index : UInt64)
  | compactTo (index term : UInt64)
deriving DecidableEq, Repr

inductive LogAnswer where
  | entry (entry : LogEntry)
  | entries (entries : List LogEntry)
  | index (index : Nat)
  | done
deriving DecidableEq, Repr

def Log64.perform (log : Log64) : LogOp → Wrapping (LogAnswer × Log64)
  | .get index => return (.entry (← log.get index.toNat), log)
  | .slice low high => return (.entries (← log.slice low.toNat high.toNat), log)
  | .lastIndex => return (.index (← log.lastIndex), log)
  | .truncateFrom index => return (.done, ← log.truncateFrom index.toNat)
  | .compactTo index term => return (.done, ← log.compactTo index.toNat term.toNat)

namespace LogOp

/-- What the call is on a map of entries. -/
def onMap (map : IndexMap LogEntry) : LogOp → Id (LogAnswer × IndexMap LogEntry)
  | .get index => (.entry ((map.lookup index.toNat).getD {}), map)
  | .slice low high => (.entries (map.between (max low.toNat (map.first + 1))
      (min high.toNat (map.last + 1))), map)
  | .lastIndex => (.index map.last, map)
  | .truncateFrom index =>
    (.done, if above : map.first < index.toNat then map.below index.toNat above else map)
  | .compactTo index term => (.done,
      if ahead : map.first < index.toNat then
        map.startAt index.toNat { index := index.toNat, term := term.toNat } (Nat.le_of_lt ahead)
      else map)

/-- Compaction to the last `uint64` there is. -/
def tops : LogOp → Bool
  | .compactTo index _ => index.toNat + 1 = 2 ^ 64
  | _ => false

/-- The call computes the index behind the marker or behind the last entry. -/
def looksBehind : LogOp → Bool
  | .slice _ _ | .lastIndex => true
  | _ => false

end LogOp

/-- No index behind the last `uint64` is asked for. -/
def Wrapless (ops : List LogOp) : Prop :=
  ops.Pairwise fun earlier later => ¬(earlier.tops = true ∧ later.looksBehind = true)

instance decidableWrapless (ops : List LogOp) : Decidable (Wrapless ops) :=
  inferInstanceAs (Decidable (List.Pairwise _ _))

namespace PlacedLog

variable {log : PlacedLog} {wrapped : Bool}

theorem onMap_truncateFrom (log : PlacedLog) (index : UInt64) :
    (log.truncateFrom index.toNat).toMap = ((LogOp.truncateFrom index).onMap log.toMap).2 := by
  simp only [LogOp.onMap]
  split
  · rename_i above
    exact toMap_truncateFrom above
  · rename_i covered
    have same : log.truncateFrom index.toNat = log :=
      eq_of_toLog (log.truncateFrom_of_le (Nat.le_of_not_lt covered))
    rw [same]

theorem onMap_compactTo (log : PlacedLog) (index term : UInt64) :
    (log.compactTo index.toNat term.toNat).toMap =
      ((LogOp.compactTo index term).onMap log.toMap).2 := by
  simp only [LogOp.onMap]
  split
  · rename_i ahead
    exact toMap_compactTo ahead term.toNat
  · rename_i covered
    have same : log.compactTo index.toNat term.toNat = log :=
      eq_of_toLog (log.compactTo_of_le (Nat.le_of_not_lt covered) _)
    rw [same]

/-- What one call leaves of the log. -/
structure Performs (log : PlacedLog) (op : LogOp) (wrapped : Bool) (next : PlacedLog) : Prop where
  run : (log.raw.perform op).run wrapped = some (((op.onMap log.toMap).1, next.raw),
    wrapped || op.looksBehind && decide (log.lastIndex + 1 = 2 ^ 64))
  toMap : next.toMap = (op.onMap log.toMap).2
  fits : next.Fits
  top : next.lastIndex + 1 = 2 ^ 64 ↔ log.lastIndex + 1 = 2 ^ 64 ∨ op.tops = true

theorem Performs.of_quiet {op : LogOp} {next : PlacedLog} (quiet : op.looksBehind = false)
    (run : (log.raw.perform op).run wrapped = some (((op.onMap log.toMap).1, next.raw), wrapped))
    (toMap : next.toMap = (op.onMap log.toMap).2) (fits : next.Fits)
    (top : next.lastIndex + 1 = 2 ^ 64 ↔ log.lastIndex + 1 = 2 ^ 64 ∨ op.tops = true) :
    log.Performs op wrapped next := by
  refine ⟨?_, toMap, fits, top⟩
  rw [run, quiet, Bool.false_and, Bool.or_false]

theorem performs (fits : log.Fits) (op : LogOp) (wrapped : Bool) :
    ∃ next, log.Performs op wrapped next := by
  cases op with
  | get index =>
    refine ⟨log, .of_quiet rfl ?_ rfl fits (or_iff_left Bool.false_ne_true).symm⟩
    rw [Log64.perform, Wrapping.run_then (log.run_get index.toNat_lt), log.get_eq_lookup]
    rfl
  | slice low high =>
    refine ⟨log, ?_, rfl, fits, (or_iff_left Bool.false_ne_true).symm⟩
    rw [Log64.perform, Wrapping.run_then (Log.run_slice fits low.toNat_lt high.toNat_lt),
      log.slice_eq_between, decide_eq_decide.mpr fits.top_iff]
    rfl
  | lastIndex =>
    refine ⟨log, ?_, rfl, fits, (or_iff_left Bool.false_ne_true).symm⟩
    rw [Log64.perform, Wrapping.run_then (Log.run_lastIndex fits)]
    rfl
  | truncateFrom index =>
    refine ⟨log.truncateFrom index.toNat, .of_quiet rfl ?_ (log.onMap_truncateFrom index)
      (fits.truncateFrom _) ?_⟩
    · rw [Log64.perform, Wrapping.run_then (log.run_truncateFrom index.toNat_lt)]
      rfl
    · exact (fits.top_truncateFrom _).trans (or_iff_left Bool.false_ne_true).symm
  | compactTo index term =>
    refine ⟨log.compactTo index.toNat term.toNat, .of_quiet rfl ?_ (log.onMap_compactTo index term)
      (fits.compactTo index.toNat_lt _) ?_⟩
    · rw [Log64.perform, Wrapping.run_then (Log.run_compactTo fits index.toNat_lt _)]
      rfl
    · rw [LogOp.tops, decide_eq_true_eq]
      exact fits.top_compactTo index.toNat_lt _

/-- The slice holds the log of the map, and only calls for an index behind the last `uint64`
have wrapped around. -/
structure Mapped (past : List LogOp) (wrapped : Bool) (raw : Log64) (map : IndexMap LogEntry) :
    Prop where
  held : ∃ log : PlacedLog, raw = log.raw ∧ map = log.toMap ∧ log.Fits
  top : map.last + 1 = 2 ^ 64 ↔ ∃ op ∈ past, op.tops = true
  unwrapped : wrapped = false ↔ Wrapless past

theorem Mapped.perform {past : List LogOp} {raw : Log64} {map : IndexMap LogEntry}
    (mapped : Mapped past wrapped raw map) (op : LogOp) :
    ∃ next flag, (raw.perform op).run wrapped = some (((op.onMap map).1, next), flag) ∧
      Mapped (past ++ [op]) flag next (op.onMap map).2 := by
  obtain ⟨⟨log, rfl, rfl, fits⟩, top, unwrapped⟩ := mapped
  obtain ⟨next, performed⟩ := log.performs fits op wrapped
  have before : log.lastIndex + 1 = 2 ^ 64 ↔ ∃ op ∈ past, op.tops = true := top
  refine ⟨next.raw, _, performed.run, ⟨next, rfl, performed.toMap.symm, performed.fits⟩, ?_, ?_⟩
  · rw [← performed.toMap]
    change next.lastIndex + 1 = 2 ^ 64 ↔ _
    rw [performed.top, before]
    simp [or_and_right, exists_or]
  · rw [Bool.or_eq_false_iff, unwrapped, Wrapless, Wrapless, List.pairwise_append]
    refine and_congr_right fun _ => ?_
    rw [Bool.and_eq_false_iff, decide_eq_false_iff_not, before]
    constructor
    · intro clear
      refine ⟨List.pairwise_singleton _ _, ?_⟩
      intro earlier member later single both
      rw [List.mem_singleton.mp single] at both
      rcases clear with plain | never
      · exact Bool.false_ne_true (plain.symm.trans both.2)
      · exact never ⟨earlier, member, both.1⟩
    · rintro ⟨_, apart⟩
      rw [← Bool.not_eq_true, ← not_and_or]
      rintro ⟨behind, earlier, member, tops⟩
      exact apart earlier member op (List.mem_singleton_self op) ⟨tops, behind⟩

end PlacedLog

/-- The log is a finite map from indices to entries: from every contiguous log with an index to
spare, every sequence of calls ends, without an access out of range, in a contiguous log, and
answers what the map answers. Arithmetic wraps around only after a compaction to the last
`uint64`. -/
theorem log_refines_map (log : PlacedLog) (fits : log.lastIndex + 1 < 2 ^ 64)
    (ops : List LogOp) :
    ∃ (after : PlacedLog) (wrapped : Bool),
      (performAll Log64.perform log.raw ops).run false =
        some (((performAll LogOp.onMap log.toMap ops).1, after.raw), wrapped) ∧
      after.toMap = (performAll LogOp.onMap log.toMap ops).2 ∧
      (wrapped = false ↔ Wrapless ops) := by
  have start : PlacedLog.Mapped [] false log.raw log.toMap := by
    refine ⟨⟨log, rfl, rfl, .inl fits⟩, ?_, by simp [Wrapless]⟩
    refine iff_of_false (Nat.ne_of_lt fits) ?_
    rintro ⟨op, member, _⟩
    cases member
  obtain ⟨final, wrapped, ran, ⟨after, rfl, same, _⟩, _, unwrapped⟩ :=
    performAll_simulates PlacedLog.Mapped (fun op mapped => mapped.perform op) start ops
  exact ⟨after, wrapped, ran, same.symm, unwrapped⟩

/-- Entries 1 and 2 behind the sentinel of a new log. -/
def shortLog : PlacedLog where
  toLog := ⟨{}, [{ term := 1, index := 1 }, { term := 2, index := 2 }]⟩
  placed := .cons rfl (.cons rfl (.cons rfl .nil))

/-- The log is cut at its end and compacted past it. -/
theorem log_refines_map_short :
    shortLog.lastIndex + 1 < 2 ^ 64 ∧
      ∃ (after : PlacedLog) (wrapped : Bool),
        (performAll Log64.perform shortLog.raw
            [.slice 0 9, .truncateFrom 2, .compactTo 5 2, .get 5, .lastIndex]).run false =
          some (([.entries shortLog.rest, .done, .done, .entry { term := 2, index := 5 },
            .index 5], after.raw), wrapped) ∧ wrapped = false := by
  have fits : shortLog.lastIndex + 1 < 2 ^ 64 := by decide
  obtain ⟨after, wrapped, ran, _, unwrapped⟩ := log_refines_map shortLog fits
    [.slice 0 9, .truncateFrom 2, .compactTo 5 2, .get 5, .lastIndex]
  exact ⟨fits, after, wrapped, ran, unwrapped.mpr (by decide)⟩

/-- `truncateFrom` at the boundary of the snapshot leaves entries above it. And once a log has
been compacted to the last `uint64`, `slice` computes an index behind it. -/
theorem truncation_refused :
    shortLog.lastIndex + 1 < 2 ^ 64 ∧
      (∃ after : PlacedLog, (shortLog.raw.truncateFrom 0).run false = some (after.raw, false) ∧
        (after.toMap.lookup 2).isSome = true ∧ ¬2 < max 0 (shortLog.snapshotIndex + 1)) ∧
      ∃ answers after, (performAll Log64.perform shortLog.raw
          [.compactTo 18446744073709551615 2, .slice 0 1]).run false =
        some ((answers, after), true) :=
  ⟨by decide, ⟨shortLog, rfl, by decide, by decide⟩, _, _, rfl⟩

end Raft

end RaftGo
