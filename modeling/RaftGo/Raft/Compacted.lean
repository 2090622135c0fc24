import RaftGo.Raft.Whole

/-! Logs of which a first part has been compacted. Appending, truncating and merging
behind the marker is the same before and after compaction, so that a compacted log
can be compared with the whole log it stands for. -/

namespace RaftGo.Raft

open Library Library.Consensus

namespace Log

variable {log : Log} {index : Nat}

theorem append_compactTo (more : List LogEntry) (inside : index ≤ log.lastIndex) (term : Nat) :
    (log.compactTo index term).append more = (log.append more).compactTo index term := by
  rw [lastIndex_eq] at inside
  rcases Nat.lt_or_ge log.snapshotIndex index with ahead | covered
  · rw [log.compactTo_of_lt ahead, (log.append more).compactTo_of_lt ahead]
    simp only [append, snapshotIndex]
    rw [List.drop_append_of_le_length (by unfold snapshotIndex at inside; omega)]
  · rw [log.compactTo_of_le covered, (log.append more).compactTo_of_le covered]

theorem truncateFrom_compactTo {cut : Nat} (above : log.snapshotIndex < cut) (behind : index < cut)
    (term : Nat) :
    (log.compactTo index term).truncateFrom cut = (log.truncateFrom cut).compactTo index term := by
  have same : (log.truncateFrom cut).snapshotIndex = log.snapshotIndex :=
    congrArg LogEntry.index (log.sentinel_truncateFrom cut)
  rcases Nat.lt_or_ge log.snapshotIndex index with ahead | covered
  · have position : cut - log.snapshotIndex - 1 - (index - log.snapshotIndex) = cut - index - 1 := by
      omega
    rw [compactTo_of_lt (log.truncateFrom cut) (by rwa [same]), log.truncateFrom_rest above, same,
      List.drop_take, position, log.compactTo_of_lt ahead]
    generalize log.rest.drop (index - log.snapshotIndex) = kept
    have marked := sentinel_truncateFrom ⟨{ index, term }, kept⟩ cut
    have rest := truncateFrom_rest ⟨{ index, term }, kept⟩ behind
    cases cutting : truncateFrom ⟨{ index, term }, kept⟩ cut with
    | mk sentinel shorter =>
      rw [cutting] at marked rest
      exact congrArg₂ Log.mk marked rest
  · rw [log.compactTo_of_le covered, compactTo_of_le _ (by rwa [same])]

theorem le_lastIndex_truncateFrom {cut : Nat} (above : log.snapshotIndex < cut)
    (behind : index < cut) (inside : index ≤ log.lastIndex) :
    index ≤ (log.truncateFrom cut).lastIndex := by
  have same : (log.truncateFrom cut).snapshotIndex = log.snapshotIndex :=
    congrArg LogEntry.index (log.sentinel_truncateFrom cut)
  rw [lastIndex_eq] at inside ⊢
  rw [same, log.truncateFrom_rest above, List.length_take]
  omega

theorem mergeEntries_compactTo {entries : List LogEntry} (boundary : log.snapshotIndex ≤ index)
    (inside : index ≤ log.lastIndex) (behind : ∀ entry ∈ entries, index < entry.index)
    (term : Nat) : (log.compactTo index term).mergeEntries entries =
      (log.mergeEntries entries).compactTo index term := by
  induction entries with
  | nil => rfl
  | cons entry rest ih =>
    have beyond := behind entry List.mem_cons_self
    have above : log.snapshotIndex < entry.index := Nat.lt_of_le_of_lt boundary beyond
    have above' : (log.compactTo index term).snapshotIndex < entry.index := by
      rw [snapshotIndex_compactTo, Nat.max_eq_right boundary]
      exact beyond
    have merged := ih fun other member => behind other (List.mem_cons_of_mem _ member)
    simp only [mergeEntries, Nat.not_le.mpr above, Nat.not_le.mpr above', ↓reduceIte,
      log.get_compactTo above beyond]
    split
    · exact append_compactTo _ inside term
    · split
      · rw [truncateFrom_compactTo above beyond,
          append_compactTo _ (le_lastIndex_truncateFrom above beyond inside)]
      · exact merged

theorem mergeEntries_covered {covered entries : List LogEntry}
    (below : ∀ entry ∈ covered, entry.index ≤ log.snapshotIndex) :
    log.mergeEntries (covered ++ entries) = log.mergeEntries entries := by
  induction covered with
  | nil => rfl
  | cons entry rest ih =>
    rw [List.cons_append, mergeEntries, if_pos (below entry List.mem_cons_self)]
    exact ih fun other member => below other (List.mem_cons_of_mem _ member)

theorem compactTo_zero (log : Log) (term : Nat) : log.compactTo 0 term = log :=
  log.compactTo_of_le (Nat.zero_le _) term

variable {entries : List LogEntry} {term : Nat}

theorem snapshotIndex_compacted : ((whole entries).compactTo index term).snapshotIndex = index := by
  rw [snapshotIndex_compactTo, snapshotIndex_whole, Nat.zero_max]

theorem snapshotTerm_compacted (positive : 0 < index) :
    ((whole entries).compactTo index term).snapshotTerm = term := by
  rw [compactTo_of_lt _ positive]
  rfl

theorem rest_compacted : ((whole entries).compactTo index term).rest = entries.drop index := by
  rcases Nat.eq_zero_or_pos index with rfl | positive
  · rw [compactTo_zero]
    rfl
  · rw [compactTo_of_lt _ positive]
    rfl

theorem compacted_congr {others : List LogEntry} (positive : 0 < index)
    (same : entries.drop index = others.drop index) :
    (whole entries).compactTo index term = (whole others).compactTo index term := by
  rw [compactTo_of_lt _ positive, compactTo_of_lt _ positive]
  exact congrArg (Log.mk _) same

theorem lastIndex_compacted (inside : index ≤ entries.length) :
    ((whole entries).compactTo index term).lastIndex = entries.length := by
  rw [lastIndex_compactTo, lastIndex_whole, Nat.max_eq_left inside]

theorem get_compacted {position : Nat} {entry : LogEntry} (behind : index < position + 1)
    (found : entries[position]? = some entry) :
    ((whole entries).compactTo index term).get (position + 1) = entry := by
  rw [get_compactTo _ (Nat.succ_pos _) behind]
  exact get_whole_of_found found

/-- Terms are read as in the whole log if the marker carries the term of the entry it
stands for. -/
theorem get_term_compacted {position : Nat} (reached : index ≤ position)
    (marked : 0 < index → ((whole entries).get index).term = term) :
    (((whole entries).compactTo index term).get position).term =
      ((whole entries).get position).term := by
  rcases Nat.eq_zero_or_pos index with rfl | positive
  · rw [compactTo_zero]
  · rcases reached.eq_or_lt with rfl | behind
    · have marker := get_snapshotIndex ((whole entries).compactTo index term)
      rw [snapshotIndex_compacted] at marker
      rw [marker, marked positive]
      exact snapshotTerm_compacted positive
    · rw [get_compactTo _ (Nat.zero_lt_of_lt behind) behind]

theorem slice_compacted {next : Nat} (above : index < next) :
    ((whole entries).compactTo index term).slice next
      (((whole entries).compactTo index term).lastIndex + 1) = entries.drop (next - 1) := by
  have position : index + (next - (index + 1)) = next - 1 := by omega
  rw [slice_to_end _ (by rwa [snapshotIndex_compacted]), snapshotIndex_compacted, rest_compacted,
    List.drop_drop, position]

theorem lastTerm_compacted (inside : index ≤ entries.length)
    (marked : 0 < index → index = entries.length → lastStamp entries = term) :
    ((whole entries).compactTo index term).lastTerm = lastStamp entries := by
  rcases Nat.eq_zero_or_pos index with rfl | positive
  · rw [compactTo_zero, lastTerm_whole]
  · rcases inside.eq_or_lt with whole | short
    · rw [marked positive whole, compactTo_of_lt _ positive, lastTerm, rest_whole,
        snapshotIndex_whole, List.drop_of_length_le (by omega)]
      rfl
    · rw [lastTerm, rest_compacted, lastStamp, List.getLast?_drop, if_neg (by omega)]
      cases found : entries.getLast? with
      | none => simp [List.getLast?_eq_none_iff.mp found] at short
      | some entry => rfl

end Log

section Merge

variable {current fresh : List LogEntry} {shared index term : Nat}

theorem Indexed.lt_of_mem_drop (indexed : Indexed fresh) {entry : LogEntry}
    (member : entry ∈ fresh.drop shared) : shared < entry.index := by
  obtain ⟨position, found⟩ := List.mem_iff_getElem?.mp member
  rw [List.getElem?_drop] at found
  have placed := indexed _ _ found
  omega

/-- Of the end of an indexed list, what the snapshot covers is skipped. -/
theorem Log.mergeEntries_drop (log : Log) (indexed : Indexed fresh) (shared : Nat) :
    log.mergeEntries (fresh.drop shared) =
      log.mergeEntries (fresh.drop (max shared log.snapshotIndex)) := by
  have split := List.take_append_drop (log.snapshotIndex - shared) (fresh.drop shared)
  have position : shared + (log.snapshotIndex - shared) = max shared log.snapshotIndex := by omega
  rw [List.drop_drop, position] at split
  rw [← split]
  refine log.mergeEntries_covered ?_
  intro entry member
  obtain ⟨offset, found⟩ := List.mem_iff_getElem?.mp member
  have bound := (List.getElem?_eq_some_iff.mp found).1
  rw [List.length_take] at bound
  rw [List.getElem?_take_of_lt (by omega), List.getElem?_drop] at found
  have placed := indexed _ _ found
  omega

/-- What a compacted log merges, the whole log would have merged. -/
theorem mergeEntries_compacted (mergeable : Mergeable current fresh)
    (inside : index ≤ current.length) (bounded : max shared index ≤ fresh.length)
    (same : current.take (max shared index) = fresh.take (max shared index)) :
    ((Log.whole current).compactTo index term).mergeEntries (fresh.drop shared) =
      (Log.whole (graft current fresh)).compactTo index term := by
  rw [Log.mergeEntries_drop _ mergeable.indexed, Log.snapshotIndex_compacted,
    Log.mergeEntries_compactTo (Nat.zero_le _), mergeEntries_whole mergeable same bounded]
  · rwa [Log.lastIndex_whole]
  · intro entry member
    exact Nat.lt_of_le_of_lt (Nat.le_max_right _ _) (mergeable.indexed.lt_of_mem_drop member)

/-- A log that differs from the sender's before its marker differs right behind it,
and is replaced from there. -/
theorem mergeEntries_differing (mergeable : Mergeable current fresh) (before : shared ≤ index)
    (inside : index < current.length) (longer : index < fresh.length)
    (differs : current.take index ≠ fresh.take index) :
    ((Log.whole current).compactTo index term).mergeEntries (fresh.drop shared) =
      (Log.whole (graft current fresh)).compactTo index term := by
  have conflict : ¬ fresh <+: current := by
    intro initial
    have part := congrArg (List.take index) (List.prefix_iff_eq_take.mp initial)
    rw [List.take_take, Nat.min_eq_left (Nat.le_of_lt longer)] at part
    exact differs part.symm
  have here := List.getElem?_eq_getElem inside
  have there := List.getElem?_eq_getElem longer
  have stamped := mergeable.stamped _ (List.mem_of_getElem? here)
  have distinct : current[index].term ≠ fresh[index].term := by
    intro agree
    have agreed := congrArg (List.take index) (mergeable.agree _ _ _ here there agree)
    rw [List.take_take, List.take_take, Nat.min_eq_left (Nat.le_succ _)] at agreed
    exact differs agreed
  have placed : fresh[index].index = index + 1 := mergeable.indexed _ _ there
  have behind : index < index + 1 := Nat.lt_succ_self _
  rw [Log.mergeEntries_drop _ mergeable.indexed, Log.snapshotIndex_compacted,
    Nat.max_eq_right before, List.drop_eq_getElem_cons longer]
  simp only [Log.mergeEntries, placed, Log.snapshotIndex_compacted, Log.get_compacted behind here,
    Nat.not_le.mpr behind, stamped, distinct, ne_eq, not_false_eq_true, ↓reduceIte]
  rw [Log.truncateFrom_compactTo (Nat.succ_pos _) behind,
    Log.truncateFrom_whole (Nat.succ_pos _), Nat.succ_sub_one,
    Log.append_compactTo _ (by rw [Log.lastIndex_whole, List.length_take]; omega),
    Log.append_whole, ← List.drop_eq_getElem_cons longer, graft, if_neg conflict]
  rcases Nat.eq_zero_or_pos index with rfl | positive
  · rfl
  · rw [Log.compactTo_of_lt _ positive, Log.compactTo_of_lt _ positive]
    simp [Nat.le_of_lt inside]

end Merge

end RaftGo.Raft
