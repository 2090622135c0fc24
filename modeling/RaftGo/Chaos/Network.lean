import Mathlib.Algebra.Order.Ring.Unbundled.Rat
import Mathlib.Data.List.Induction

/-! The rule engine that the fault injection puts before every RPC (`chaos/network.go`).
Rules are tried in the order they were installed and the first match decides. -/

namespace RaftGo.Chaos

inductive Action where
  | drop
  | loss
  | delay
deriving DecidableEq, Repr

/-- `src` and `dst` are the source's `from` and `to`; an empty one matches every node. -/
structure Rule where
  id : String
  src : String := ""
  dst : String := ""
  act : Action := .drop
  prob : ℚ := 0
  d : Int := 0
deriving DecidableEq

inductive EvalResult where
  | forward
  | drop
deriving DecidableEq, Repr

/-- The `switch` of `evaluate`: the result and how long the caller is made to sleep. -/
def Rule.judge (rule : Rule) (draw : ℚ) : EvalResult × Int :=
  match rule.act with
  | .drop => (.drop, 0)
  | .loss => if draw < rule.prob then (.drop, 0) else (.forward, 0)
  | .delay => (.forward, rule.d)

/-- The loop of `evaluate`. At most one random number is drawn, since a loss rule always
decides. -/
def evaluateRules (draw : ℚ) (src dst : String) : List Rule → EvalResult × Int
  | [] => (.forward, 0)
  | rule :: rest =>
    if rule.src ≠ "" ∧ rule.src ≠ src then evaluateRules draw src dst rest
    else if rule.dst ≠ "" ∧ rule.dst ≠ dst then evaluateRules draw src dst rest
    else rule.judge draw

structure ChaosNetwork where
  rules : List Rule := []
deriving DecidableEq

namespace ChaosNetwork

variable (net : ChaosNetwork)

def addRule (rule : Rule) : ChaosNetwork := { net with rules := net.rules ++ [rule] }

def removeRule (id : String) : ChaosNetwork :=
  { net with rules := net.rules.filter (·.id ≠ id) }

def clearRules (net : ChaosNetwork) : ChaosNetwork := { net with rules := [] }

def evaluate (draw : ℚ) (src dst : String) : EvalResult × Int :=
  evaluateRules draw src dst net.rules

/-- The three RPCs of `ChaosTransport`: `id` calls `addr`, and `base` is what the wrapped
transport would answer. -/
def send {Reply : Type} (draw : ℚ) (id addr : String) (base : Except String Reply) :
    Except String Reply :=
  if (net.evaluate draw id addr).1 = .drop then
    .error ("chaos: packet dropped (" ++ id ++ "→" ++ addr ++ ")")
  else base

end ChaosNetwork

namespace Rule

/-- The rule decides messages from `src` to `dst`. -/
def covers (rule : Rule) (src dst : String) : Bool :=
  (rule.src == "" || rule.src == src) && (rule.dst == "" || rule.dst == dst)

/-- The rule drops what it decides, whatever number is drawn. -/
def Cuts (rule : Rule) : Prop := rule.act = .drop ∨ rule.act = .loss ∧ 1 ≤ rule.prob

instance decidableCuts (rule : Rule) : Decidable rule.Cuts := inferInstanceAs (Decidable (_ ∨ _))

theorem cuts_iff {rule : Rule} :
    (∀ draw, 0 ≤ draw → draw < 1 → (rule.judge draw).1 = .drop) ↔ rule.Cuts := by
  unfold judge Cuts
  cases rule.act with
  | drop => simp
  | delay =>
    have drawn : ∃ draw : ℚ, 0 ≤ draw ∧ draw < 1 := ⟨0, le_rfl, rfl⟩
    simpa using drawn
  | loss =>
    simp only [true_and, reduceCtorEq, false_or]
    constructor
    · intro always
      by_contra short
      rw [not_le] at short
      -- a draw at the probability itself, or at 0 below it, is not under the probability
      have missed := always (max rule.prob 0) (le_max_right _ _) (max_lt short rfl)
      rw [if_neg (not_lt.mpr (le_max_left _ _))] at missed
      cases missed
    · intro sure draw _ below
      rw [if_pos (lt_of_lt_of_le below sure)]

end Rule

theorem evaluateRules_cons (draw : ℚ) (src dst : String) (rule : Rule) (rest : List Rule) :
    evaluateRules draw src dst (rule :: rest) =
      if rule.covers src dst then rule.judge draw else evaluateRules draw src dst rest := by
  rw [evaluateRules, Rule.covers]
  by_cases sender : rule.src = "" ∨ rule.src = src
  · have passes : ¬(rule.src ≠ "" ∧ rule.src ≠ src) := by simpa [← or_iff_not_imp_left] using sender
    by_cases receiver : rule.dst = "" ∨ rule.dst = dst
    · have arrives : ¬(rule.dst ≠ "" ∧ rule.dst ≠ dst) := by
        simpa [← or_iff_not_imp_left] using receiver
      simp [passes, arrives, sender, receiver]
    · simp [passes, sender, not_or.mp receiver]
  · simp [not_or.mp sender]

/-- The first rule that covers a message decides it. -/
theorem evaluateRules_eq (draw : ℚ) (src dst : String) (rules : List Rule) :
    evaluateRules draw src dst rules =
      ((rules.find? (·.covers src dst)).map (·.judge draw)).getD (.forward, 0) := by
  induction rules with
  | nil => rfl
  | cons rule rest ih =>
    rw [evaluateRules_cons, List.find?_cons]
    cases rule.covers src dst with
    | true => rfl
    | false => exact ih

/-- Among rules that all drop, one that covers a message cuts it off, unless an older rule
decides the message otherwise. -/
theorem cut_iff {src dst : String} (older : List Rule) {shields newer : List Rule}
    (dropping : ∀ rule ∈ shields, rule.act = .drop)
    (covered : shields.any (·.covers src dst) = true) :
    (∀ draw, 0 ≤ draw → draw < 1 →
      (evaluateRules draw src dst (older ++ (shields ++ newer))).1 = .drop) ↔
      ∀ rule, older.find? (·.covers src dst) = some rule → rule.Cuts := by
  simp only [evaluateRules_eq, List.find?_append]
  cases found : older.find? (·.covers src dst) with
  | some rule => simpa using rule.cuts_iff
  | none =>
    obtain ⟨shield, first⟩ : ∃ shield, shields.find? (·.covers src dst) = some shield := by
      rw [← Option.isSome_iff_exists, List.find?_isSome]
      simpa using covered
    have drops := dropping shield (List.mem_of_find?_eq_some first)
    simp [first, Rule.judge, drops]

/-- What is done to the rules in between. -/
inductive Change where
  | add (rule : Rule)
  | remove (id : String)
deriving DecidableEq

namespace ChaosNetwork

variable (net : ChaosNetwork)

def change : Change → ChaosNetwork
  | .add rule => net.addRule rule
  | .remove id => net.removeRule id

def changeAll (changes : List Change) : ChaosNetwork := changes.foldl change net

/-- The rules of a list that no change has removed. -/
def remaining (rules : List Rule) (changes : List Change) : List Rule :=
  rules.filter fun rule => Change.remove rule.id ∉ changes

theorem remaining_append (first second : List Rule) (changes : List Change) :
    remaining (first ++ second) changes = remaining first changes ++ remaining second changes :=
  List.filter_append ..

theorem rules_changeAll (changes : List Change) :
    ∃ newer, (net.changeAll changes).rules = remaining net.rules changes ++ newer := by
  induction changes using List.reverseRecOn with
  | nil =>
    have whole : remaining net.rules [] = net.rules := List.filter_eq_self.mpr (by simp)
    exact ⟨[], by rw [whole, List.append_nil]; rfl⟩
  | append_singleton earlier last ih =>
    obtain ⟨newer, rules⟩ := ih
    rw [changeAll, List.foldl_append, List.foldl_cons, List.foldl_nil, ← changeAll]
    cases last with
    | add rule =>
      refine ⟨newer ++ [rule], ?_⟩
      simp [change, addRule, rules, remaining]
    | remove id =>
      refine ⟨newer.filter (·.id ≠ id), ?_⟩
      rw [change, removeRule, rules, List.filter_append]
      simp [remaining, List.filter_filter, and_comm]

end ChaosNetwork

end RaftGo.Chaos
