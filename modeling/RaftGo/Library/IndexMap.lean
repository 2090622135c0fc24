import Mathlib.Data.List.Basic

/-! Finite maps from the indices of an interval, and what is left of them when either end
moves. -/

namespace RaftGo.Library

/-- The keys are the indices from `first` to `last`. -/
@[ext]
structure IndexMap (α : Type) where
  first : Nat
  last : Nat
  lookup : Nat → Option α
  ordered : first ≤ last
  domain : ∀ index, (lookup index).isSome = true ↔ first ≤ index ∧ index ≤ last

namespace IndexMap

variable {α : Type} (map : IndexMap α)

/-- What is held at the indices of a half-open range, in order. -/
def between (low high : Nat) : List α := (List.range' low (high - low)).filterMap map.lookup

/-- Where the map reads a list, a range of it is a part of the list. -/
theorem between_eq_drop {list : List α} {start : Nat}
    (reads : ∀ index, start ≤ index → map.lookup index = list[index - start]?) {low : Nat}
    (inside : start ≤ low) (high : Nat) :
    map.between low high = (list.take (high - start)).drop (low - start) := by
  unfold between
  generalize length : high - low = count
  induction count generalizing low with
  | zero =>
    rw [List.drop_of_length_le (Nat.le_trans (List.length_take_le _ _) (by omega))]
    rfl
  | succ count ih =>
    have later := ih (Nat.le_succ_of_le inside) (by omega)
    have next : low + 1 - start = low - start + 1 := by omega
    have position : low - start < high - start := by omega
    rw [List.range'_succ, List.filterMap_cons, reads low inside, later, next,
      ← List.getElem?_take_of_lt position]
    cases found : (list.take (high - start))[low - start]? with
    | none =>
      have ended := List.getElem?_eq_none_iff.mp found
      rw [List.drop_of_length_le ended, List.drop_of_length_le (Nat.le_succ_of_le ended)]
    | some value =>
      obtain ⟨bound, rfl⟩ := List.getElem?_eq_some_iff.mp found
      exact List.getElem_cons_drop bound

/-- Only what is held below a bound stays. -/
def below (bound : Nat) (above : map.first < bound) : IndexMap α where
  first := map.first
  last := min map.last (bound - 1)
  lookup index := if index < bound then map.lookup index else none
  ordered := by
    have ordered := map.ordered
    omega
  domain index := by
    split
    · rw [map.domain]
      omega
    · simp only [Option.isSome_none, Bool.false_eq_true, false_iff]
      omega

/-- The map begins further on, with a value of its own there. -/
def startAt (start : Nat) (value : α) (ahead : map.first ≤ start) : IndexMap α where
  first := start
  last := max map.last start
  lookup index :=
    if index < start then none else if index = start then some value else map.lookup index
  ordered := Nat.le_max_right _ _
  domain index := by
    split
    · simp only [Option.isSome_none, Bool.false_eq_true, false_iff]
      omega
    · split
      · simp only [Option.isSome_some, true_iff]
        omega
      · rw [map.domain]
        omega

end IndexMap

end RaftGo.Library
