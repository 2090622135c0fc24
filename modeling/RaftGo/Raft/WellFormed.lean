import RaftGo.Raft.Cases

/-! Well-formed logs: every entry stands at the index it carries, and behind the marker
none lacks a term. What `HandleInstallSnapshot` makes of a log whose terms never fall. -/

namespace RaftGo

open Raft

/-- Entries for the indices from `first` on. -/
def PlacedFrom (first : Nat) (entries : List LogEntry) : Prop :=
  ∀ k entry, entries[k]? = some entry → entry.index = first + k

namespace PlacedFrom

variable {first : Nat} {entry : LogEntry} {entries more : List LogEntry}

theorem nil : PlacedFrom first [] := by
  intro k entry found
  simp at found

theorem head (placed : PlacedFrom first (entry :: entries)) : entry.index = first :=
  placed 0 entry rfl

theorem tail (placed : PlacedFrom first (entry :: entries)) : PlacedFrom (first + 1) entries := by
  intro k later found
  have index := placed (k + 1) later found
  omega

theorem cons (index : entry.index = first) (placed : PlacedFrom (first + 1) entries) :
    PlacedFrom first (entry :: entries) := by
  intro k later found
  cases k with
  | zero => exact Option.some.inj found ▸ index
  | succ k =>
    have placed := placed k later found
    omega

theorem take (placed : PlacedFrom first entries) (count : Nat) :
    PlacedFrom first (entries.take count) := by
  intro k entry found
  rw [List.getElem?_take] at found
  split at found
  · exact placed k entry found
  · cases found

theorem drop (placed : PlacedFrom first entries) (count : Nat) :
    PlacedFrom (first + count) (entries.drop count) := by
  intro k entry found
  rw [List.getElem?_drop] at found
  have index := placed _ entry found
  omega

theorem append (placed : PlacedFrom first entries)
    (next : PlacedFrom (first + entries.length) more) : PlacedFrom first (entries ++ more) := by
  intro k entry found
  rcases Nat.lt_or_ge k entries.length with inside | outside
  · rw [List.getElem?_append_left inside] at found
    exact placed k entry found
  · rw [List.getElem?_append_right outside] at found
    have index := next _ entry found
    omega

theorem getElem?_of_mem (placed : PlacedFrom first entries) (member : entry ∈ entries) :
    first ≤ entry.index ∧ entries[entry.index - first]? = some entry := by
  obtain ⟨k, found⟩ := List.mem_iff_getElem?.mp member
  have index := placed k entry found
  rw [index, Nat.add_sub_cancel_left]
  exact ⟨Nat.le_add_right _ _, found⟩

/-- What stands from an index on, by the index carried and by position. -/
theorem filter_eq_drop (placed : PlacedFrom first entries) (index : Nat) :
    entries.filter (index ≤ ·.index) = entries.drop (index - first) := by
  induction entries generalizing first with
  | nil => simp
  | cons entry rest ih =>
    have later := ih placed.tail
    rcases Nat.lt_or_ge first index with before | behind
    · have position : index - first = index - (first + 1) + 1 := by omega
      rw [List.filter_cons_of_neg (by simpa [placed.head] using before), later, position,
        List.drop_succ_cons]
    · have here : index - first = 0 := by omega
      have next : index - (first + 1) = 0 := by omega
      rw [next] at later
      rw [List.filter_cons_of_pos (by simpa [placed.head] using behind), later, here]
      rfl

theorem filter_eq_take (placed : PlacedFrom first entries) (index : Nat) :
    entries.filter (·.index < index) = entries.take (index - first) := by
  induction entries generalizing first with
  | nil => simp
  | cons entry rest ih =>
    have later := ih placed.tail
    rcases Nat.lt_or_ge first index with before | behind
    · have position : index - first = index - (first + 1) + 1 := by omega
      rw [List.filter_cons_of_pos (by simpa [placed.head] using before), later, position,
        List.take_succ_cons]
    · have here : index - first = 0 := by omega
      have next : index - (first + 1) = 0 := by omega
      rw [next] at later
      rw [List.filter_cons_of_neg (by simpa [placed.head] using behind), later, here]
      rfl

end PlacedFrom

namespace Raft

namespace Log

variable {log : Log} {index : Nat}

/-- No term is smaller than the one before it, the marker included. -/
def Ordered (log : Log) : Prop :=
  log.entries.Pairwise fun earlier later => earlier.term ≤ later.term

instance (log : Log) : Decidable log.Ordered := inferInstanceAs (Decidable (List.Pairwise _ _))

/-- Every entry stands at its index, and behind the marker none lacks a term. -/
structure WellFormed (log : Log) : Prop where
  placed : PlacedFrom log.snapshotIndex log.entries
  stamped : ∀ entry ∈ log.rest, 1 ≤ entry.term

theorem placed_rest (placed : PlacedFrom log.snapshotIndex log.entries) :
    PlacedFrom (log.snapshotIndex + 1) log.rest :=
  placed.tail

theorem placed_entries (placed : PlacedFrom (log.snapshotIndex + 1) log.rest) :
    PlacedFrom log.snapshotIndex log.entries :=
  .cons rfl placed

theorem placed_truncateFrom (placed : PlacedFrom log.snapshotIndex log.entries) (index : Nat) :
    PlacedFrom (log.truncateFrom index).snapshotIndex (log.truncateFrom index).entries := by
  rcases Nat.lt_or_ge log.snapshotIndex index with above | covered
  · refine placed_entries ?_
    rw [log.truncateFrom_rest above, log.snapshotIndex_truncateFrom]
    exact (placed_rest placed).take _
  · rwa [log.truncateFrom_of_le covered]

theorem placed_compactTo (placed : PlacedFrom log.snapshotIndex log.entries) (index term : Nat) :
    PlacedFrom (log.compactTo index term).snapshotIndex (log.compactTo index term).entries := by
  rcases Nat.lt_or_ge log.snapshotIndex index with ahead | covered
  · have behind := (placed_rest placed).drop (index - log.snapshotIndex)
    have next : log.snapshotIndex + 1 + (index - log.snapshotIndex) = index + 1 := by omega
    rw [log.compactTo_of_lt ahead]
    exact placed_entries (next ▸ behind)
  · rwa [log.compactTo_of_le covered]

theorem mem_rest_iff (placed : PlacedFrom log.snapshotIndex log.entries) {entry : LogEntry}
    (above : log.snapshotIndex < index) :
    entry ∈ log.rest ∧ entry.index = index ↔
      log.rest[index - log.snapshotIndex - 1]? = some entry := by
  constructor
  · rintro ⟨member, rfl⟩
    exact Nat.sub_sub _ _ _ ▸ ((placed_rest placed).getElem?_of_mem member).2
  · intro found
    have carried := placed_rest placed _ entry found
    exact ⟨List.mem_of_getElem? found, by omega⟩

theorem exists_mem_rest_iff {term : Nat} (placed : PlacedFrom log.snapshotIndex log.entries)
    (above : log.snapshotIndex < index) (within : index ≤ log.lastIndex) :
    (∃ entry ∈ log.rest, entry.index = index ∧ entry.term = term) ↔
      (log.get index).term = term := by
  rw [lastIndex_eq] at within
  have found := List.getElem?_eq_getElem
    (show index - log.snapshotIndex - 1 < log.rest.length by omega)
  rw [log.get_of_gt above, found, Option.getD_some]
  constructor
  · rintro ⟨entry, member, carried, stamped⟩
    have there := (mem_rest_iff placed above).mp ⟨member, carried⟩
    rw [Option.some.inj (found.symm.trans there), stamped]
  · intro stamped
    obtain ⟨member, carried⟩ := (mem_rest_iff placed above).mpr found
    exact ⟨_, member, carried, stamped⟩

/-- An index behind the marker lies beyond the log, or there is exactly one entry at it,
and it has a term. -/
theorem WellFormed.get_cases (formed : log.WellFormed) (above : log.snapshotIndex < index) :
    (log.lastIndex < index ∧ log.get index = {} ∧ ∀ entry ∈ log.rest, entry.index ≠ index) ∨
      (index ≤ log.lastIndex ∧ 1 ≤ (log.get index).term ∧
        ∀ entry, entry ∈ log.rest ∧ entry.index = index ↔ entry = log.get index) := by
  rw [log.get_of_gt above]
  cases found : log.rest[index - log.snapshotIndex - 1]? with
  | none =>
    have outside := List.getElem?_eq_none_iff.mp found
    refine .inl ⟨?_, rfl, fun entry member same => ?_⟩
    · rw [lastIndex_eq]
      omega
    · cases found.symm.trans ((mem_rest_iff formed.placed above).mp ⟨member, same⟩)
  | some held =>
    have inside := (List.getElem?_eq_some_iff.mp found).1
    refine .inr ⟨?_, formed.stamped held (List.mem_of_getElem? found), fun entry => ?_⟩
    · rw [lastIndex_eq]
      omega
    · rw [mem_rest_iff formed.placed above, found, Option.some.injEq, Option.getD_some]
      exact eq_comm

theorem get_found (boundary : log.snapshotIndex ≤ index)
    (inside : index ≤ log.lastIndex) : log.entries[index - log.snapshotIndex]? =
      some (log.get index) := by
  have bounded : index - log.snapshotIndex < log.entries.length := by
    rw [lastIndex_eq] at inside
    rw [length_entries]
    omega
  rw [get, if_neg (by omega), List.getElem?_eq_getElem bounded, Option.getD_some]

theorem index_le_lastIndex (placed : PlacedFrom log.snapshotIndex log.entries) {entry : LogEntry}
    (member : entry ∈ log.entries) :
    log.snapshotIndex ≤ entry.index ∧ entry.index ≤ log.lastIndex := by
  obtain ⟨behind, found⟩ := placed.getElem?_of_mem member
  have inside := (List.getElem?_eq_some_iff.mp found).1
  rw [length_entries] at inside
  rw [lastIndex_eq]
  omega

theorem get_of_mem (placed : PlacedFrom log.snapshotIndex log.entries) {entry : LogEntry}
    (member : entry ∈ log.entries) : log.get entry.index = entry := by
  obtain ⟨boundary, inside⟩ := index_le_lastIndex placed member
  exact Option.some.inj ((get_found boundary inside).symm.trans (placed.getElem?_of_mem member).2)

theorem get_term_iff (placed : PlacedFrom log.snapshotIndex log.entries) {term : Nat}
    (stamped : term ≠ 0) : (log.get index).term = term ↔
      ∃ entry ∈ log.entries, entry.index = index ∧ entry.term = term := by
  constructor
  · intro same
    rcases Nat.lt_or_ge index log.snapshotIndex with before | boundary
    · rw [get, if_pos (.inl before)] at same
      exact absurd same.symm stamped
    · rcases Nat.lt_or_ge log.lastIndex index with beyond | inside
      · rw [log.get_of_lastIndex_lt beyond] at same
        exact absurd same.symm stamped
      · have found := get_found boundary inside
        have carried := placed _ _ found
        exact ⟨log.get index, List.mem_of_getElem? found, by omega, same⟩
  · rintro ⟨entry, member, rfl, same⟩
    rwa [get_of_mem placed member]

/-- Terms do not fall behind a marker that stands for the entry at its index, or for
more than there is. -/
theorem ordered_compactTo (ordered : log.Ordered) (ahead : log.snapshotIndex < index) {term : Nat}
    (stands : index < log.lastIndex → (log.get index).term = term) :
    (log.compactTo index term).Ordered := by
  rw [log.compactTo_of_lt ahead]
  have sorted := (List.pairwise_cons.mp ordered).2
  refine List.pairwise_cons.mpr ⟨?_, sorted.drop⟩
  intro entry member
  obtain ⟨k, found⟩ := List.mem_iff_getElem?.mp member
  rw [List.getElem?_drop] at found
  obtain ⟨inside, rfl⟩ := List.getElem?_eq_some_iff.mp found
  have short : index < log.lastIndex := by
    rw [lastIndex_eq]
    omega
  have marker : index - log.snapshotIndex - 1 < log.rest.length := by omega
  rw [log.get_of_gt ahead, List.getElem?_eq_getElem marker] at stands
  exact stands short ▸ List.pairwise_iff_getElem.mp sorted _ _ marker inside (by omega)

end Log

namespace RaftNode

variable {node : RaftNode} {args : InstallSnapshotArgs}

/-- A snapshot whose file can be saved is installed if it lies ahead of the node's own, and
otherwise compacting changes nothing. -/
theorem log_handleInstallSnapshot (current : node.currentTerm ≤ args.term) :
    (node.handleInstallSnapshot args true).1.log =
      node.log.compactTo args.lastIncludedIndex args.lastIncludedTerm := by
  have reached : (node.handleInstallSnapshot args true).2.term ≤ args.term := by
    rw [term_handleInstallSnapshot, Nat.max_eq_right current]
  rcases node.handleInstallSnapshot_outcome args true with
    ⟨relieved, covered⟩ | ⟨_, _, _, installed⟩
  · rw [relieved.log_eq, node.log.compactTo_of_le (covered rfl reached)]
  · have same := node.log_stepDown args.term
    rw [installed, ← same]
    rfl

/-- Installing a snapshot puts its marker first. It keeps what the log has behind it just if
the log has the entry the marker stands for, and leaves terms that never fall, exactly if a
log which reaches beyond the snapshot has that entry: `compactTo` does not look. -/
theorem installed_log_consistent (placed : PlacedFrom node.log.snapshotIndex node.log.entries)
    (ordered : node.log.Ordered) (current : node.currentTerm ≤ args.term)
    (ahead : node.log.snapshotIndex < args.lastIncludedIndex) :
    let log := (node.handleInstallSnapshot args true).1.log
    (log.sentinel = { index := args.lastIncludedIndex, term := args.lastIncludedTerm } ∧
      (log.rest = if ∃ entry ∈ node.log.rest, entry.index = args.lastIncludedIndex ∧
          entry.term = args.lastIncludedTerm
        then node.log.rest.filter (args.lastIncludedIndex < ·.index) else []) ∧
      PlacedFrom log.snapshotIndex log.entries ∧ log.Ordered) ↔
    (args.lastIncludedIndex < node.log.lastIndex →
      (node.log.get args.lastIncludedIndex).term = args.lastIncludedTerm) := by
  intro log
  have kept : node.log.rest.filter (args.lastIncludedIndex < ·.index) =
      node.log.rest.drop (args.lastIncludedIndex - node.log.snapshotIndex) := by
    have behind := (Log.placed_rest placed).filter_eq_drop (args.lastIncludedIndex + 1)
    rwa [Nat.add_sub_add_right] at behind
  have compacted : log = node.log.compactTo args.lastIncludedIndex args.lastIncludedTerm :=
    log_handleInstallSnapshot current
  have installed := compacted.trans (node.log.compactTo_of_lt ahead _)
  have reaches := node.log.lastIndex_eq
  constructor
  · rintro ⟨_, rest, _⟩ inside
    rw [← Log.exists_mem_rest_iff placed ahead inside.le]
    by_contra missing
    -- the log goes on behind the marker, so something is kept
    rw [if_neg missing, installed, List.drop_eq_nil_iff] at rest
    omega
  · intro stands
    refine ⟨by rw [installed], ?_, ?_, ?_⟩
    · rw [installed, kept]
      rcases Nat.lt_or_ge args.lastIncludedIndex node.log.lastIndex with inside | outside
      · rw [if_pos ((Log.exists_mem_rest_iff placed ahead inside.le).mpr (stands inside))]
      · rw [List.drop_of_length_le (by omega), ite_self]
    · rw [compacted]
      exact Log.placed_compactTo placed _ _
    · rw [compacted]
      exact Log.ordered_compactTo ordered ahead stands

/-- A follower with two entries of term 1. -/
def lagging : RaftNode :=
  { newRaftNode { id := "node1", peers := ["node2:7001", "node3:7001"] } with
    currentTerm := 2
    log := ⟨{}, [{ term := 1, index := 1 }, { term := 1, index := 2 }]⟩ }

theorem lagging_placed : PlacedFrom lagging.log.snapshotIndex lagging.log.entries :=
  .cons rfl (.cons rfl (.cons rfl .nil))

theorem installed_log_consistent_lagging :
    (lagging.handleInstallSnapshot ⟨2, "node2", 1, 1, []⟩ true).1.log.rest =
      [{ term := 1, index := 2 }] := by
  obtain ⟨_, kept, _⟩ := (@installed_log_consistent lagging ⟨2, "node2", 1, 1, []⟩ lagging_placed
    (by decide) (by decide) (by decide)).mpr (by decide)
  exact kept.trans (by decide)

/-- The snapshot of another leader ends inside the entries of term 1: the second of them
stays, behind a marker of term 2. -/
theorem installed_over_divergent_suffix : ∃ (node : RaftNode) (args : InstallSnapshotArgs),
    PlacedFrom node.log.snapshotIndex node.log.entries ∧ node.log.Ordered ∧
      node.currentTerm ≤ args.term ∧ node.log.snapshotIndex < args.lastIncludedIndex ∧
      (¬∃ entry ∈ node.log.rest, entry.index = args.lastIncludedIndex ∧
        entry.term = args.lastIncludedTerm) ∧
      (node.handleInstallSnapshot args true).1.log =
        ⟨{ term := 2, index := 1 }, [{ term := 1, index := 2 }]⟩ ∧
      ¬(node.handleInstallSnapshot args true).1.log.Ordered :=
  ⟨lagging, ⟨2, "node2", 1, 2, []⟩, lagging_placed, by decide, by decide, by decide, by decide,
    by decide, by decide⟩

end RaftNode

end Raft

end RaftGo
