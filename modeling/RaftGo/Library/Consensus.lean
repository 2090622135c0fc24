import RaftGo.Library.Ballot
import Mathlib.Data.List.Infix

/-! A replicated log under elected leaders. Over the terms and votes of `Ballot`
every participant holds a log, and three histories are kept: the log a candidate
stood with, the log a voter held when it endorsed a candidate, and for each term
the log its leader has written so far (its reign). A follower adopts a prefix of
the reign of its current term and thereby acknowledges it. -/

namespace RaftGo.Library.Consensus

open Ballot (put put_self put_other_term put_other_who put_cases put_keeps)

/-- Log entries carry the term they were written in. -/
class Stamped (Entry : Type*) where
  stamp : Entry → Nat

open Stamped (stamp)

/-- The term of the last entry, zero for an empty log. -/
def lastStamp {Entry : Type*} [Stamped Entry] (log : List Entry) : Nat :=
  (log.getLast?.map stamp).getD 0

/-- The comparison a voter makes between a candidate's log and its own. -/
def UpToDate {Entry : Type*} [Stamped Entry] (candidate voter : List Entry) : Prop :=
  lastStamp voter < lastStamp candidate ∨
    lastStamp candidate = lastStamp voter ∧ voter.length ≤ candidate.length

theorem UpToDate.refl {Entry : Type*} [Stamped Entry] (log : List Entry) : UpToDate log log :=
  .inr ⟨rfl, Nat.le_refl _⟩

theorem getElem?_of_initial {Entry : Type*} {first second : List Entry} {position : Nat}
    {entry : Entry} (initial : first <+: second) (found : first[position]? = some entry) :
    second[position]? = some entry := by
  obtain ⟨rest, rfl⟩ := initial
  rw [List.getElem?_append_left (List.getElem?_eq_some_iff.mp found).1]
  exact found

section Logs

variable {Entry : Type*} [DecidableEq Entry] {current fresh source kept : List Entry}

/-- Replace a log by another one unless it extends that one already. -/
def graft (current fresh : List Entry) : List Entry :=
  if fresh <+: current then current else fresh

theorem graft_of_initial (extended : fresh <+: current) : graft current fresh = current := by
  simp [graft, extended]

theorem fresh_prefix_graft : fresh <+: graft current fresh := by
  unfold graft
  split
  · assumption
  · exact List.prefix_refl _

theorem graft_keeps (adopted : fresh <+: source) (shared : kept <+: source)
    (held : kept <+: current) : kept <+: graft current fresh := by
  unfold graft
  split
  · exact held
  · rename_i conflict
    rcases List.prefix_or_prefix_of_prefix adopted shared with shorter | longer
    · exact absurd (shorter.trans held) conflict
    · exact longer

theorem graft_cases (current fresh : List Entry) :
    graft current fresh = current ∨ graft current fresh = fresh := by
  unfold graft
  split
  · exact .inl rfl
  · exact .inr rfl

end Logs

structure State (ι Entry : Type*) extends Ballot.State ι where
  log : ι → List Entry
  slate : Nat → ι → Option (List Entry)
  endorsed : Nat → ι → ι → List Entry → Prop
  reign : Nat → List Entry
  acked : Nat → ι → Nat

variable {ι Entry : Type*}

def State.initial : State ι Entry where
  toState := .initial
  log _ := []
  slate _ _ := none
  endorsed _ _ _ _ := False
  reign _ := []
  acked _ _ := 0

/-- Some participant has been elected in this term. -/
def State.Led (state : State ι Entry) (term : Nat) : Prop :=
  ∃ leader, state.leader term = some leader

variable {state next : State ι Entry}

/-- What no step takes back. -/
structure Evolves (state next : State ι Entry) : Prop where
  term : ∀ participant, state.term participant ≤ next.term participant
  ballot : ∀ {term voter candidate}, state.ballot term voter = some candidate →
    next.ballot term voter = some candidate
  slate : ∀ {term candidate log}, state.slate term candidate = some log →
    next.slate term candidate = some log
  endorsed : ∀ {term candidate voter log}, state.endorsed term candidate voter log →
    next.endorsed term candidate voter log
  leader : ∀ {term leader}, state.leader term = some leader → next.leader term = some leader
  reign : ∀ {term}, state.Led term → state.reign term <+: next.reign term
  acked : ∀ term participant, state.acked term participant ≤ next.acked term participant

theorem Evolves.refl (state : State ι Entry) : Evolves state state where
  term _ := Nat.le_refl _
  ballot := id
  slate := id
  endorsed := id
  leader := id
  reign _ := List.prefix_refl _
  acked _ _ := Nat.le_refl _

theorem Evolves.led (evolves : Evolves state next) {term : Nat} (led : state.Led term) :
    next.Led term := by
  obtain ⟨leader, leads⟩ := led
  exact ⟨leader, evolves.leader leads⟩

theorem Evolves.trans {last : State ι Entry} (first : Evolves state next)
    (second : Evolves next last) : Evolves state last where
  term participant := (first.term participant).trans (second.term participant)
  ballot cast := second.ballot (first.ballot cast)
  slate slated := second.slate (first.slate slated)
  endorsed support := second.endorsed (first.endorsed support)
  leader leads := second.leader (first.leader leads)
  reign led := (first.reign led).trans (second.reign (first.led led))
  acked term participant := (first.acked term participant).trans (second.acked term participant)

/-- What belongs to a participant is as it was, and it has not been elected. -/
structure Spares (state next : State ι Entry) (participant : ι) : Prop where
  term : next.term participant = state.term participant
  ballot : ∀ term, next.ballot term participant = state.ballot term participant
  slate : ∀ term, next.slate term participant = state.slate term participant
  log : next.log participant = state.log participant
  leader : ∀ term, next.leader term = some participant → state.leader term = some participant

variable [DecidableEq ι] [Fintype ι] [Stamped Entry] [DecidableEq Entry]

inductive Step (state : State ι Entry) (actor : ι) : State ι Entry → Prop where
  /-- A participant learns of a later term. -/
  | bump (term : Nat) (later : state.term actor < term) :
      Step state actor { state with term := Function.update state.term actor term }
  /-- A participant opens a later term as its own candidate. -/
  | stand (term : Nat) (later : state.term actor < term)
      (fresh : state.ballot term actor = none)
      (unslated : state.slate term actor = none) :
      Step state actor { state with
        term := Function.update state.term actor term
        ballot := put state.ballot term actor (some actor)
        slate := put state.slate term actor (some (state.log actor)) }
  /-- A participant votes in its current term. -/
  | vote (candidate : ι)
      (free : ∀ earlier, state.ballot (state.term actor) actor = some earlier →
        earlier = candidate) :
      Step state actor { state with
        ballot := put state.ballot (state.term actor) actor (some candidate) }
  /-- A vote cast before the term has a leader, for a candidate whose log was
  compared with the voter's, counts towards the election. -/
  | endorse (candidate : ι) (standing : List Entry)
      (cast : state.ballot (state.term actor) actor = some candidate)
      (vacant : state.leader (state.term actor) = none)
      (slated : state.slate (state.term actor) candidate = some standing)
      (compared : UpToDate standing (state.log actor)) :
      Step state actor { state with
        endorsed := fun term chosen voter log =>
          state.endorsed term chosen voter log ∨
            term = state.term actor ∧ chosen = candidate ∧ voter = actor ∧
              log = state.log actor }
  /-- A candidate endorsed by a majority takes over with the log it stood with. -/
  | elect (voters : Finset ι)
      (vacant : state.leader (state.term actor) = none)
      (slated : state.slate (state.term actor) actor = some (state.log actor))
      (majority : IsMajority voters)
      (support : ∀ voter ∈ voters, ∃ log,
        state.endorsed (state.term actor) actor voter log) :
      Step state actor { state with
        leader := Function.update state.leader (state.term actor) (some actor)
        reign := Function.update state.reign (state.term actor) (state.log actor)
        acked := put state.acked (state.term actor) actor
          (max (state.acked (state.term actor) actor) (state.log actor).length) }
  /-- The leader of the current term writes an entry. -/
  | append (entry : Entry)
      (leads : state.leader (state.term actor) = some actor)
      (stamped : stamp entry = state.term actor) :
      Step state actor { state with
        log := Function.update state.log actor (state.log actor ++ [entry])
        reign := Function.update state.reign (state.term actor)
          (state.reign (state.term actor) ++ [entry])
        acked := put state.acked (state.term actor) actor
          (max (state.acked (state.term actor) actor)
            ((state.reign (state.term actor)).length + 1)) }
  /-- A participant takes over the first `length` entries of the current reign. -/
  | adopt (length : Nat) (led : state.Led (state.term actor))
      (bounded : length ≤ (state.reign (state.term actor)).length) :
      Step state actor { state with
        log := Function.update state.log actor
          (graft (state.log actor) ((state.reign (state.term actor)).take length))
        acked := put state.acked (state.term actor) actor
          (max (state.acked (state.term actor) actor) length) }

variable {actor : ι}

theorem Step.evolves (step : Step state actor next) : Evolves state next := by
  have raised {table : Nat → ι → Nat} {term : Nat} {who : ι} {value : Nat} :
      ∀ other participant, table other participant ≤
        put table term who (max (table term who) value) other participant := by
    intro other participant
    rcases put_cases table term other who participant (max (table term who) value) with
      ⟨rfl, rfl, written⟩ | ⟨_, kept⟩
    · rw [written]
      exact Nat.le_max_left _ _
    · exact Nat.le_of_eq kept.symm
  have forward {participant : ι} {term : Nat} (later : state.term participant < term) :
      ∀ other, state.term other ≤ Function.update state.term participant term other := by
    intro other
    by_cases same : other = participant
    · subst same
      simpa using Nat.le_of_lt later
    · simp [Function.update_of_ne same]
  cases step with
  | bump term later =>
    exact { Evolves.refl state with term := forward later }
  | stand term later fresh unslated =>
    exact { Evolves.refl state with
      term := forward later
      ballot := fun cast => put_keeps (fun _ found => by simp [fresh] at found) cast
      slate := fun slated => put_keeps (fun _ found => by simp [unslated] at found) slated }
  | vote candidate free =>
    exact { Evolves.refl state with ballot := fun cast => put_keeps free cast }
  | endorse candidate standing cast vacant slated compared =>
    exact { Evolves.refl state with endorsed := fun support => .inl support }
  | elect voters vacant slated majority support =>
    refine { Evolves.refl state with leader := ?_, reign := ?_, acked := raised }
    · intro term leader leads
      by_cases same : term = state.term actor
      · subst same
        simp [vacant] at leads
      · simpa [Function.update_of_ne same] using leads
    · intro term led
      by_cases same : term = state.term actor
      · subst same
        obtain ⟨leader, leads⟩ := led
        simp [vacant] at leads
      · simp [Function.update_of_ne same]
  | append entry leads stamped =>
    refine { Evolves.refl state with reign := ?_, acked := raised }
    intro term led
    by_cases same : term = state.term actor
    · subst same
      simp
    · simp [Function.update_of_ne same]
  | adopt length led bounded =>
    exact { Evolves.refl state with acked := raised }

theorem Step.spares (step : Step state actor next) {other : ι} (different : other ≠ actor) :
    Spares state next other := by
  have same : Spares state state other := ⟨rfl, fun _ => rfl, fun _ => rfl, rfl, fun _ => id⟩
  cases step with
  | bump term later => exact { same with term := Function.update_of_ne different _ _ }
  | stand term later fresh unslated =>
    exact { same with
      term := Function.update_of_ne different _ _
      ballot := fun _ => put_other_who different
      slate := fun _ => put_other_who different }
  | vote candidate free => exact { same with ballot := fun _ => put_other_who different }
  | endorse candidate standing cast vacant slated compared => exact { same with }
  | elect voters vacant slated majority support =>
    refine { same with leader := ?_ }
    intro term leads
    by_cases current : term = state.term actor
    · subst current
      simp only [Function.update_self, Option.some.injEq] at leads
      exact absurd leads.symm different
    · simpa [Function.update_of_ne current] using leads
  | append entry leads stamped => exact { same with log := Function.update_of_ne different _ _ }
  | adopt length led bounded => exact { same with log := Function.update_of_ne different _ _ }

end RaftGo.Library.Consensus
