import Mathlib.Algebra.Group.Nat.Defs
import Mathlib.Data.List.Basic

/-! Arithmetic on unsigned words of a machine and the slices it indexes. Sums and differences
are reduced to the size of a word, with a record that it happened; an index out of range ends
the computation. -/

namespace RaftGo.Library

/-- The flag says whether anything has wrapped around so far. -/
abbrev Wrapping := StateT Bool Option

namespace Wrapping

variable {α β : Type} {bits a b : Nat} {wrapped flag : Bool}

def add (bits a b : Nat) : Wrapping Nat := fun wrapped =>
  some ((a + b) % 2 ^ bits, wrapped || decide (2 ^ bits ≤ a + b))

def sub (bits a b : Nat) : Wrapping Nat := fun wrapped =>
  some ((a + (2 ^ bits - b)) % 2 ^ bits, wrapped || decide (a < b))

/-- `list[position]` -/
def element (list : List α) (position : Nat) : Wrapping α := fun wrapped =>
  list[position]?.map fun value => (value, wrapped)

/-- `list[low:high]` -/
def subslice (list : List α) (low high : Nat) : Wrapping (List α) := fun wrapped =>
  if low ≤ high ∧ high ≤ list.length then some ((list.take high).drop low, wrapped) else none

/-- A computation goes on with what its first part returns. -/
theorem run_then {first : Wrapping α} {next : α → Wrapping β} {value : α}
    (ran : first.run wrapped = some (value, flag)) :
    (first >>= next).run wrapped = (next value).run flag := by
  rw [StateT.run_bind, ran]
  rfl

theorem run_add (fits : a + b < 2 ^ bits) :
    (add bits a b).run wrapped = some (a + b, wrapped) := by
  have unreduced : (a + b) % 2 ^ bits = a + b := Nat.mod_eq_of_lt fits
  simp [add, StateT.run, unreduced, Nat.not_le.mpr fits]

theorem run_sub (ordered : b ≤ a) (fits : a < 2 ^ bits) :
    (sub bits a b).run wrapped = some (a - b, wrapped) := by
  have shifted : a + (2 ^ bits - b) = a - b + 2 ^ bits := by omega
  have unreduced : (a + (2 ^ bits - b)) % 2 ^ bits = a - b := by
    rw [shifted, Nat.add_mod_right, Nat.mod_eq_of_lt (by omega)]
  simp [sub, StateT.run, unreduced, Nat.not_lt.mpr ordered]

theorem run_add_wraps (reached : a + b = 2 ^ bits) :
    (add bits a b).run wrapped = some (0, true) := by
  simp [add, StateT.run, reached]

theorem run_sub_wraps (below : a < b) (word : b ≤ 2 ^ bits) :
    (sub bits a b).run wrapped = some (a + (2 ^ bits - b), true) := by
  have unreduced : (a + (2 ^ bits - b)) % 2 ^ bits = a + (2 ^ bits - b) :=
    Nat.mod_eq_of_lt (by omega)
  simp [sub, StateT.run, unreduced, below]

theorem run_element {list : List α} {position : Nat} {value : α}
    (found : list[position]? = some value) :
    (element list position).run wrapped = some (value, wrapped) := by
  simp [element, StateT.run, found]

theorem run_subslice {list : List α} {low high : Nat} (ordered : low ≤ high)
    (inside : high ≤ list.length) :
    (subslice list low high).run wrapped = some ((list.take high).drop low, wrapped) := by
  simp [subslice, StateT.run, ordered, inside]

end Wrapping

section Operations

variable {State Model Op Answer : Type}

/-- Operations one after the other, with their answers. -/
def performAll {m : Type → Type} [Monad m] (perform : State → Op → m (Answer × State)) :
    State → List Op → m (List Answer × State)
  | state, [] => return ([], state)
  | state, op :: ops => do
    let done ← perform state op
    let rest ← performAll perform done.2 ops
    return (done.1 :: rest.1, rest.2)

/-- Simulation rule: where every operation ends with the answer of a model, so does every
sequence of them. The relation may look at the operations so far and at what has wrapped. -/
theorem performAll_simulates {perform : State → Op → Wrapping (Answer × State)}
    {model : Model → Op → Id (Answer × Model)} (related : List Op → Bool → State → Model → Prop)
    (each : ∀ {past wrapped state abstract} op, related past wrapped state abstract →
      ∃ next flag, (perform state op).run wrapped = some (((model abstract op).1, next), flag) ∧
        related (past ++ [op]) flag next (model abstract op).2)
    {past : List Op} {wrapped : Bool} {state : State} {abstract : Model}
    (start : related past wrapped state abstract) (ops : List Op) :
    ∃ final flag, (performAll perform state ops).run wrapped =
        some (((performAll model abstract ops).1, final), flag) ∧
      related (past ++ ops) flag final (performAll model abstract ops).2 := by
  induction ops generalizing past wrapped state abstract with
  | nil =>
    rw [List.append_nil]
    exact ⟨state, wrapped, rfl, start⟩
  | cons op ops ih =>
    obtain ⟨next, flag, performed, reached⟩ := each op start
    obtain ⟨final, last, followed, ended⟩ := ih reached
    rw [List.append_assoc, List.singleton_append] at ended
    refine ⟨final, last, ?_, ended⟩
    rw [performAll, Wrapping.run_then performed, Wrapping.run_then followed]
    rfl

end Operations

end RaftGo.Library
