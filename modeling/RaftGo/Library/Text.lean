import Mathlib.Data.List.DropRight
import Mathlib.Data.List.Infix

/-! Strings as Go's `strings` package cuts, joins and trims them, and when one of these
undoes another. -/

namespace RaftGo.Library

section Lists

variable {α : Type} [DecidableEq α] {separator : α}

/-- What comes before the first occurrence of a separator, and what comes after it. -/
def cut (separator : List α) : List α → Option (List α × List α)
  | [] => none
  | head :: rest =>
    if separator <+: head :: rest then some ([], (head :: rest).drop separator.length)
    else (cut separator rest).map fun parts => (head :: parts.1, parts.2)

/-- The parts between separators after at most so many cuts. The separator is not empty. -/
def splitUpTo (separator : List α) : Nat → List α → List (List α)
  | 0, text => [text]
  | cuts + 1, text =>
    match cut separator text with
    | none => [text]
    | some (before, after) => before :: splitUpTo separator cuts after

theorem cut_of_notMem {text : List α} (absent : separator ∉ text) :
    cut [separator] text = none := by
  induction text with
  | nil => rfl
  | cons head rest ih =>
    rw [List.mem_cons, not_or] at absent
    simp [cut, ih absent.2, absent.1]

theorem cut_append {before : List α} (absent : separator ∉ before) (after : List α) :
    cut [separator] (before ++ separator :: after) = some (before, after) := by
  induction before with
  | nil => simp [cut]
  | cons head rest ih =>
    rw [List.mem_cons, not_or] at absent
    simp [cut, ih absent.2, absent.1]

/-- Splitting undoes joining where no part holds the separator. -/
theorem splitUpTo_intercalate {parts : List (List α)} (inhabited : parts ≠ [])
    (free : ∀ part ∈ parts, separator ∉ part) {cuts : Nat} (enough : parts.length ≤ cuts + 1) :
    splitUpTo [separator] cuts ([separator].intercalate parts) = parts := by
  induction parts generalizing cuts with
  | nil => exact absurd rfl inhabited
  | cons part others ih =>
    have here := free part List.mem_cons_self
    cases others with
    | nil =>
      rw [List.intercalate_singleton]
      cases cuts with
      | zero => rfl
      | succ cuts => rw [splitUpTo, cut_of_notMem here]
    | cons next rest =>
      cases cuts with
      | zero => simp at enough
      | succ cuts =>
        have later := ih (List.cons_ne_nil _ _) (fun other member =>
          free other (List.mem_cons_of_mem _ member)) (Nat.le_of_succ_le_succ enough)
        rw [List.intercalate_cons_cons, List.append_assoc, List.singleton_append, splitUpTo,
          cut_append here]
        exact congrArg (part :: ·) later

omit [DecidableEq α] in
theorem length_le_length_intercalate (parts : List (List α)) :
    parts.length ≤ ([separator].intercalate parts).length + 1 := by
  induction parts with
  | nil => exact Nat.zero_le _
  | cons part others ih =>
    cases others with
    | nil => exact Nat.le_add_left _ _
    | cons next rest =>
      rw [List.intercalate_cons_cons, List.length_append, List.length_append,
        List.length_singleton, List.length_cons]
      omega

end Lists

section Strings

variable {separator text : String} {char : Char}

/-- `strings.Split` at a separator that is not empty. -/
def split (text separator : String) : List String :=
  (splitUpTo separator.toList text.toList.length text.toList).map String.ofList

/-- `strings.SplitN`: the last of the parts is what is left. -/
def splitN (text separator : String) : Nat → List String
  | 0 => []
  | cuts + 1 => (splitUpTo separator.toList cuts text.toList).map String.ofList

/-- `unicode.IsSpace`: the characters with the White_Space property. -/
def isSpace (char : Char) : Bool :=
  (0x09 ≤ char.toNat && char.toNat ≤ 0x0D) || char.toNat == 0x20 || char.toNat == 0x85 ||
    char.toNat == 0xA0 || char.toNat == 0x1680 ||
    (0x2000 ≤ char.toNat && char.toNat ≤ 0x200A) || char.toNat == 0x2028 ||
    char.toNat == 0x2029 || char.toNat == 0x202F || char.toNat == 0x205F || char.toNat == 0x3000

/-- `strings.TrimSpace`. -/
def trimSpace (text : String) : String :=
  String.ofList ((text.toList.dropWhile isSpace).rdropWhile isSpace)

/-- No white space at the front or at the end. -/
def Trimmed (text : String) : Prop :=
  text.toList.head?.any isSpace = false ∧ text.toList.getLast?.any isSpace = false

instance decidableTrimmed : Decidable (Trimmed text) :=
  inferInstanceAs (Decidable (_ ∧ _))

theorem trimmed_of_forall (clean : ∀ char ∈ text.toList, isSpace char = false) : Trimmed text := by
  constructor
  · cases first : text.toList.head? with
    | none => rfl
    | some char => exact clean char (List.mem_of_mem_head? first)
  · cases last : text.toList.getLast? with
    | none => rfl
    | some char => exact clean char (List.mem_of_mem_getLast? last)

theorem trimSpace_of_trimmed (trimmed : Trimmed text) : trimSpace text = text := by
  have front : text.toList.dropWhile isSpace = text.toList := by
    refine List.dropWhile_eq_self_iff.mpr fun inhabited space => ?_
    have first := trimmed.1
    rw [List.head?_eq_getElem?, List.getElem?_eq_getElem inhabited, Option.any_some, space] at first
    cases first
  have back : text.toList.rdropWhile isSpace = text.toList := by
    refine List.rdropWhile_eq_self_iff.mpr fun inhabited space => ?_
    have last := trimmed.2
    rw [List.getLast?_eq_getLast_of_ne_nil inhabited, Option.any_some, space] at last
    cases last
  rw [trimSpace, front, back, String.ofList_toList]

/-- `strings.Join` undone: the parts do not hold the separator, a single character. -/
theorem split_intercalate {parts : List String} (single : separator.toList = [char])
    (inhabited : parts ≠ []) (free : ∀ part ∈ parts, char ∉ part.toList) :
    split (separator.intercalate parts) separator = parts := by
  have listed : ∀ part ∈ parts.map String.toList, char ∉ part := by
    intro part member
    obtain ⟨whole, inside, rfl⟩ := List.mem_map.mp member
    exact free whole inside
  rw [split, String.toList_intercalate, single, splitUpTo_intercalate
    (List.map_eq_nil_iff.not.mpr inhabited) listed (length_le_length_intercalate _), List.map_map]
  simp [Function.comp_def]

theorem splitN_two {before : String} (single : separator.toList = [char])
    (absent : char ∉ before.toList) (after : String) :
    splitN (before ++ separator ++ after) separator 2 = [before, after] := by
  have found := cut_append absent after.toList
  simp [splitN, splitUpTo, single, found]

/-- A number is written with digits and a sign. -/
theorem isDigit_of_mem_toString {number : Int} (member : char ∈ (toString number).toList) :
    char.isDigit = true ∨ char = '-' := by
  rw [Int.toString_eq_repr, Int.repr_eq_if] at member
  split at member
  · rw [Nat.toList_repr] at member
    exact .inl (Nat.isDigit_of_mem_toDigits (by decide) (by decide) member)
  · rw [String.toList_append, Nat.toList_repr, List.mem_append] at member
    rcases member with sign | digit
    · exact .inr (List.mem_singleton.mp sign)
    · exact .inl (Nat.isDigit_of_mem_toDigits (by decide) (by decide) digit)

theorem isSpace_of_isDigit (digit : char.isDigit = true) : isSpace char = false := by
  have range : 48 ≤ char.toNat ∧ char.toNat ≤ 57 := Char.isDigit_iff_toNat.mp digit
  simp only [isSpace, Bool.or_eq_false_iff, Bool.and_eq_false_iff, decide_eq_false_iff_not,
    beq_eq_false_iff_ne]
  omega

end Strings

end RaftGo.Library
