import Mathlib.Data.Fintype.Card

namespace RaftGo.Library

variable {ι : Type*} [Fintype ι]

/-- A strict majority of a finite type of participants. -/
def IsMajority (members : Finset ι) : Prop :=
  Fintype.card ι < 2 * members.card

/-- Two strict majorities share a participant. -/
theorem IsMajority.meet [DecidableEq ι] {first second : Finset ι}
    (one : IsMajority first) (two : IsMajority second) :
    ∃ shared, shared ∈ first ∧ shared ∈ second := by
  unfold IsMajority at one two
  have crowded : (Finset.univ : Finset ι).card < first.card + second.card := by
    rw [Finset.card_univ]
    omega
  obtain ⟨shared, member⟩ := Finset.inter_nonempty_of_card_lt_card_add_card
    (Finset.subset_univ first) (Finset.subset_univ second) crowded
  exact ⟨shared, Finset.mem_inter.mp member⟩

/-- Majorities of two sets that differ in one element at most share an element. -/
theorem majorities_meet {α : Type*} [DecidableEq α] {left right one two : Finset α} (pivot : α)
    (near : ∀ element, element ≠ pivot → (element ∈ left ↔ element ∈ right))
    (inLeft : one ⊆ left) (inRight : two ⊆ right)
    (first : left.card < 2 * one.card) (second : right.card < 2 * two.card) :
    (one ∩ two).Nonempty := by
  have joined : left ∪ right ⊆ insert pivot (left ∩ right) := by
    intro element member
    by_cases same : element = pivot
    · exact Finset.mem_insert.mpr (.inl same)
    · have both := near element same
      refine Finset.mem_insert_of_mem (Finset.mem_inter.mpr ?_)
      rcases Finset.mem_union.mp member with there | there
      · exact ⟨there, both.mp there⟩
      · exact ⟨both.mpr there, there⟩
  have sizes := Finset.card_union_add_card_inter left right
  have bound := Finset.card_le_card joined
  have grown := Finset.card_insert_le pivot (left ∩ right)
  have crowded : (left ∪ right).card < one.card + two.card := by omega
  exact Finset.inter_nonempty_of_card_lt_card_add_card
    (inLeft.trans Finset.subset_union_left) (inRight.trans Finset.subset_union_right) crowded

end RaftGo.Library
