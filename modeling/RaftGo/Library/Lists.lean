import Mathlib.Data.List.Infix
import Mathlib.Data.List.Sort

/-! Lists: how far two of them agree, what stands behind the last separator of one, and what
the element at a rank of a descending one says about the others. -/

namespace RaftGo.Library

section Shared

variable {α : Type} [DecidableEq α]

/-- The number of elements two lists have in common from the start. -/
def sharedLength : List α → List α → Nat
  | one :: ones, two :: twos => if one = two then sharedLength ones twos + 1 else 0
  | _, _ => 0

theorem le_sharedLength_iff {ones twos : List α} {count : Nat} :
    count ≤ sharedLength ones twos ↔
      count ≤ ones.length ∧ count ≤ twos.length ∧ ones.take count = twos.take count := by
  induction ones generalizing twos count with
  | nil =>
    simp only [sharedLength, Nat.le_zero, List.length_nil]
    constructor
    · rintro rfl
      simp
    · exact And.left
  | cons one ones ih =>
    cases twos with
    | nil =>
      simp only [sharedLength, Nat.le_zero, List.length_nil]
      constructor
      · rintro rfl
        simp
      · exact fun bounds => bounds.2.1
    | cons two twos =>
      cases count with
      | zero => simp
      | succ count =>
        rw [sharedLength]
        split
        · rename_i same
          simp [ih, same]
        · rename_i differs
          simp [differs]

end Shared

theorem getElem?_snoc_cases {α : Type*} {list : List α} {last value : α} {position : Nat}
    (found : (list ++ [last])[position]? = some value) :
    list[position]? = some value ∨ position = list.length ∧ value = last := by
  rcases Nat.lt_trichotomy position list.length with inside | rfl | beyond
  · exact .inl (List.getElem?_append_left inside ▸ found)
  · rw [List.getElem?_concat_length] at found
    exact .inr ⟨rfl, (Option.some.inj found).symm⟩
  · rw [List.getElem?_eq_none (by simpa using Nat.succ_le_of_lt beyond)] at found
    cases found

/-- What stands behind the last separator of a list is determined by the list. -/
theorem eq_of_append_separator {α : Type*} {separator : α} {front front' back back' : List α}
    (same : front ++ separator :: back = front' ++ separator :: back')
    (last : separator ∉ back) (last' : separator ∉ back') : back = back' := by
  rcases List.append_eq_append_iff.mp same with ⟨between, _, shifted⟩ | ⟨between, _, shifted⟩
  · cases between with
    | nil => exact (List.cons.inj shifted).2
    | cons first rest => exact absurd (by simp [(List.cons.inj shifted).2]) last
  · cases between with
    | nil => exact (List.cons.inj shifted).2.symm
    | cons first rest => exact absurd (by simp [(List.cons.inj shifted).2]) last'

/-- In a descending list the element at a position reaches a bound if and only if more
elements than the position reach it. -/
theorem le_iff_lt_countP_of_descending {values : List Nat} (descending : values.Pairwise (· ≥ ·))
    {position value : Nat} (found : values[position]? = some value) (bound : Nat) :
    bound ≤ value ↔ position < values.countP (bound ≤ ·) := by
  induction values generalizing position with
  | nil => simp at found
  | cons head rest ih =>
    obtain ⟨above, ordered⟩ := List.pairwise_cons.mp descending
    -- if the head does not reach the bound, nothing does
    have none (short : ¬bound ≤ head) : rest.countP (bound ≤ ·) = 0 := by
      rw [List.countP_eq_zero]
      intro other member
      have bounded := above other member
      simp only [decide_eq_true_eq]
      omega
    cases position with
    | zero =>
      have same : head = value := by simpa using found
      subst same
      by_cases reached : bound ≤ head
      · simp [reached]
      · simp [reached, none reached]
    | succ position =>
      have later : rest[position]? = some value := by simpa using found
      have larger : value ≤ head := above value (List.mem_of_getElem? later)
      have counted := ih ordered later
      by_cases reached : bound ≤ head
      · rw [List.countP_cons_of_pos (by simpa using reached), counted]
        omega
      · rw [List.countP_cons_of_neg (by simpa using reached), none reached]
        omega

end RaftGo.Library
