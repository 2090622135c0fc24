import Mathlib.Logic.Relation

/-! Event-driven systems, the runs they take under a restriction on which
events may happen where, and the two rules every result about runs uses: an
invariant rule, and a simulation rule that carries what was noted of the states
passed through to the end of the run. -/

namespace RaftGo.Library

universe u v w

/-- A deterministic system. `step s e = none` means that `e` cannot happen in `s`. -/
structure System (State : Type u) (Event : Type v) where
  step : State → Event → Option State

/-- One move of a run: the state before, the event and the state after. -/
structure Move (State : Type u) (Event : Type v) where
  before : State
  event : Event
  after : State

namespace System

variable {State : Type u} {Event : Type v} {Ghost : Type w}

/-- A finite run from `start` through `moves`, every one of them allowed in the
state it is taken in. -/
inductive Trace (system : System State Event) (allowed : State → Event → Prop) (start : State) :
    List (Move State Event) → State → Prop where
  | nil : Trace system allowed start [] start
  | snoc {moves : List (Move State Event)} {state next : State} {event : Event}
      (earlier : Trace system allowed start moves state)
      (permitted : allowed state event) (taken : system.step state event = some next) :
      Trace system allowed start (moves ++ [⟨state, event, next⟩]) next

/-- The states a run passes through, the first and the last one included. -/
def visited (start : State) (moves : List (Move State Event)) : List State :=
  start :: moves.map Move.after

variable {system : System State Event} {allowed : State → Event → Prop} {start state : State}
  {moves : List (Move State Event)}

/-- What holds of a run so far and survives every allowed step holds of every run. -/
theorem Trace.record (holds : List (Move State Event) → State → Prop)
    (trace : system.Trace allowed start moves state) (initial : holds [] start)
    (preserved : ∀ moves state event next, holds moves state → allowed state event →
      system.step state event = some next → holds (moves ++ [⟨state, event, next⟩]) next) :
    holds moves state := by
  induction trace with
  | nil => exact initial
  | snoc earlier permitted taken ih => exact preserved _ _ _ _ ih permitted taken

/-- Invariant rule: the same for what only speaks of the state. -/
theorem Trace.invariant {holds : State → Prop} (trace : system.Trace allowed start moves state)
    (initial : holds start)
    (preserved : ∀ state event next, holds state → allowed state event →
      system.step state event = some next → holds next) : holds state :=
  trace.record (fun _ => holds) initial fun _ => preserved

/-- Every move meets a condition that may look at the moves before it. -/
def Throughout (condition : List (Move State Event) → Move State Event → Prop)
    (earlier : List (Move State Event)) : List (Move State Event) → Prop
  | [] => True
  | move :: later => condition earlier move ∧ Throughout condition (earlier ++ [move]) later

instance decidableThroughout (condition : List (Move State Event) → Move State Event → Prop)
    [∀ earlier move, Decidable (condition earlier move)] :
    ∀ earlier moves, Decidable (Throughout condition earlier moves)
  | _, [] => isTrue trivial
  | earlier, move :: later =>
    have := decidableThroughout condition (earlier ++ [move]) later
    inferInstanceAs (Decidable (condition earlier move ∧ Throughout condition _ later))

theorem throughout_snoc {condition : List (Move State Event) → Move State Event → Prop}
    {earlier : List (Move State Event)} {move : Move State Event} :
    Throughout condition earlier (moves ++ [move]) ↔
      Throughout condition earlier moves ∧ condition (earlier ++ moves) move := by
  induction moves generalizing earlier with
  | nil => simp [Throughout]
  | cons first rest ih => simp [Throughout, ih, and_assoc]

/-- The rule for runs whose moves all meet such a condition. -/
theorem Trace.record_throughout {condition : List (Move State Event) → Move State Event → Prop}
    (holds : List (Move State Event) → State → Prop)
    (trace : system.Trace allowed start moves state) (met : Throughout condition [] moves)
    (initial : holds [] start)
    (preserved : ∀ moves state event next, holds moves state → allowed state event →
      condition moves ⟨state, event, next⟩ → system.step state event = some next →
        holds (moves ++ [⟨state, event, next⟩]) next) : holds moves state := by
  refine trace.record (fun moves state => Throughout condition [] moves → holds moves state)
    (fun _ => initial) ?_ met
  intro moves state event next before permitted taken met
  obtain ⟨past, last⟩ := throughout_snoc.mp met
  exact preserved moves state event next (before past) permitted last taken

theorem Trace.split (trace : system.Trace allowed start moves state) {move : Move State Event}
    {earlier later : List (Move State Event)} (parts : moves = earlier ++ move :: later) :
    system.Trace allowed start earlier move.before ∧ allowed move.before move.event ∧
      system.step move.before move.event = some move.after := by
  induction trace generalizing later with
  | nil => simp at parts
  | snoc first permitted taken ih =>
    rcases List.eq_nil_or_concat later with rfl | ⟨rest, last, rfl⟩
    · obtain ⟨rfl, same⟩ := List.append_inj' parts rfl
      cases same
      exact ⟨first, permitted, taken⟩
    · rw [List.concat_eq_append, ← List.cons_append, ← List.append_assoc] at parts
      exact ih (List.append_inj' parts rfl).1

theorem Trace.of_move (trace : system.Trace allowed start moves state) {move : Move State Event}
    (member : move ∈ moves) :
    ∃ prior, system.Trace allowed start prior move.before ∧ allowed move.before move.event ∧
      system.step move.before move.event = some move.after := by
  obtain ⟨earlier, later, parts⟩ := List.append_of_mem member
  exact ⟨earlier, trace.split parts⟩

theorem visited_snoc_cases {move : Move State Event} {count : Nat} {seen : State}
    (found : (visited start (moves ++ [move]))[count]? = some seen) :
    (visited start moves)[count]? = some seen ∧ (moves ++ [move]).take count = moves.take count ∨
      seen = move.after ∧ (moves ++ [move]).take count = moves ++ [move] := by
  rcases Nat.lt_or_ge count (moves.length + 1) with inside | last
  · refine .inl ⟨?_, List.take_append_of_le_length (by omega)⟩
    rw [← found, visited, visited, List.map_append, ← List.cons_append,
      List.getElem?_append_left (by simpa using inside)]
  · refine .inr ⟨?_, List.take_of_length_le (by simpa using last)⟩
    rw [visited, List.map_append, ← List.cons_append,
      List.getElem?_append_right (by simpa using last)] at found
    simpa using List.mem_of_getElem? found

theorem Trace.take (trace : system.Trace allowed start moves state) {count : Nat} {seen : State}
    (found : (visited start moves)[count]? = some seen) :
    system.Trace allowed start (moves.take count) seen := by
  induction trace with
  | nil =>
    cases List.mem_singleton.mp (List.mem_of_getElem? found)
    simpa using Trace.nil
  | snoc earlier permitted taken ih =>
    rcases visited_snoc_cases found with ⟨old, same⟩ | ⟨rfl, same⟩
    · rw [same]
      exact ih old
    · rw [same]
      exact .snoc earlier permitted taken

theorem Trace.mono {wider : State → Event → Prop}
    (trace : system.Trace allowed start moves state)
    (weaker : ∀ state event, allowed state event → wider state event) :
    system.Trace wider start moves state := by
  induction trace with
  | nil => exact .nil
  | snoc _ permitted taken ih => exact .snoc ih (weaker _ _ permitted) taken

theorem getElem?_visited_take {count earlier : Nat} {seen : State}
    (found : (visited start moves)[earlier]? = some seen) (order : earlier ≤ count) :
    (visited start (moves.take count))[earlier]? = some seen := by
  have cut : visited start (moves.take count) = (visited start moves).take (count + 1) := by
    simp [visited, List.map_take]
  rw [cut, List.getElem?_take_of_lt (Nat.lt_succ_of_le order), found]

/-- What grows with every move has grown since any state passed through. -/
theorem Trace.ascends {Value : Type w} (value : List (Move State Event) → State → Value)
    (below : Value → Value → Prop) (refl : ∀ v, below v v)
    (trans : ∀ a b c, below a b → below b c → below a c)
    (trace : system.Trace allowed start moves state)
    (grows : ∀ moves state event next, system.Trace allowed start moves state →
      allowed state event → system.step state event = some next →
        below (value moves state) (value (moves ++ [⟨state, event, next⟩]) next))
    {count : Nat} {seen : State} (found : (visited start moves)[count]? = some seen) :
    below (value (moves.take count) seen) (value moves state) := by
  induction trace with
  | nil =>
    cases List.mem_singleton.mp (List.mem_of_getElem? found)
    simpa using refl _
  | snoc earlier permitted taken ih =>
    rcases visited_snoc_cases found with ⟨old, same⟩ | ⟨rfl, same⟩
    · rw [same]
      exact trans _ _ _ (ih old) (grows _ _ _ _ earlier permitted taken)
    · rw [same]
      exact refl _

/-- Simulation rule. `related` is kept along the run by moving the ghost state
through `next`; what `noted` says of a visited state is stable under `next`, so it
still holds at the end. -/
theorem Trace.simulate (related noted : State → Ghost → Prop) (next : Ghost → Ghost → Prop)
    {ghost : Ghost} (trace : system.Trace allowed start moves state)
    (initial : related start ghost)
    (forward : ∀ state event after ghost, related state ghost → allowed state event →
      system.step state event = some after →
        ∃ ghost', Relation.ReflTransGen next ghost ghost' ∧ related after ghost')
    (notes : ∀ state ghost, related state ghost → noted state ghost)
    (stable : ∀ state ghost ghost', next ghost ghost' → noted state ghost → noted state ghost') :
    ∃ ghost', related state ghost' ∧ ∀ seen ∈ visited start moves, noted seen ghost' := by
  have later : ∀ state ghost ghost', Relation.ReflTransGen next ghost ghost' →
      noted state ghost → noted state ghost' := by
    intro state ghost ghost' path
    induction path with
    | refl => exact id
    | tail _ last ih => exact fun seen => stable _ _ _ last (ih seen)
  induction trace with
  | nil =>
    refine ⟨ghost, initial, ?_⟩
    intro seen member
    have same : seen = start := by simpa [visited] using member
    subst same
    exact notes _ _ initial
  | @snoc _ _ reached _ earlier permitted taken ih =>
    obtain ⟨middle, relation, seen⟩ := ih
    obtain ⟨final, extension, relation'⟩ := forward _ _ _ _ relation permitted taken
    refine ⟨final, relation', ?_⟩
    intro other member
    simp only [visited, List.map_append, List.map_cons, List.map_nil] at member
    rw [← List.cons_append] at member
    rcases List.mem_append.mp member with old | last
    · exact later _ _ _ extension (seen other old)
    · have same : other = reached := List.mem_singleton.mp last
      subst same
      exact notes _ _ relation'

theorem Trace.getElem?_visited (trace : system.Trace allowed start moves state) :
    (visited start moves)[moves.length]? = some state := by
  cases trace <;> simp [visited]

theorem Trace.mem_visited (trace : system.Trace allowed start moves state) :
    state ∈ visited start moves :=
  List.mem_of_getElem? trace.getElem?_visited

theorem mem_visited_of_move {move : Move State Event} (member : move ∈ moves) :
    move.after ∈ visited start moves :=
  List.mem_cons_of_mem _ (List.mem_map_of_mem member)

/-- Run a list of events, collecting the moves. -/
def replay (system : System State Event) :
    State → List Event → Option (List (Move State Event) × State)
  | state, [] => some ([], state)
  | state, event :: events =>
    match system.step state event with
    | none => none
    | some next => (system.replay next events).map fun result =>
        (⟨state, event, next⟩ :: result.1, result.2)

theorem Trace.append {middle : State} {rest : List (Move State Event)}
    (first : system.Trace allowed start moves middle)
    (second : system.Trace allowed middle rest state) :
    system.Trace allowed start (moves ++ rest) state := by
  induction second with
  | nil => simpa using first
  | snoc earlier permitted taken ih =>
    rw [← List.append_assoc]
    exact .snoc ih permitted taken

/-- What `replay` computes is a run, if every move of it is allowed. -/
theorem trace_of_replay {events : List Event}
    (played : system.replay start events = some (moves, state))
    (permitted : ∀ move ∈ moves, allowed move.before move.event) :
    system.Trace allowed start moves state := by
  induction events generalizing start moves with
  | nil =>
    simp only [replay, Option.some.injEq, Prod.mk.injEq] at played
    obtain ⟨rfl, rfl⟩ := played
    exact .nil
  | cons event events ih =>
    simp only [replay] at played
    split at played
    · cases played
    rename_i next taken
    simp only [Option.map_eq_some_iff, Prod.mk.injEq] at played
    obtain ⟨⟨rest, final⟩, remaining, rfl, rfl⟩ := played
    have tail := ih remaining (fun other member => permitted other (by simp [member]))
    have head : system.Trace allowed start ([] ++ [⟨start, event, next⟩]) next :=
      .snoc .nil (permitted ⟨start, event, next⟩ (by simp)) taken
    exact head.append tail

/-- A computed run that is allowed and passes a check exists as a run. -/
theorem exists_trace (system : System State Event) (allowed : State → Event → Prop)
    [∀ state event, Decidable (allowed state event)] (start : State) (events : List Event)
    (check : List (Move State Event) → State → Bool)
    (passed : (system.replay start events).any (fun result =>
      (result.1.all fun move => allowed move.before move.event) &&
        check result.1 result.2) = true) :
    ∃ moves state, system.Trace allowed start moves state ∧ check moves state = true := by
  cases played : system.replay start events with
  | none => simp [played] at passed
  | some result =>
    rw [played, Option.any_some, Bool.and_eq_true, List.all_eq_true] at passed
    exact ⟨result.1, result.2,
      trace_of_replay played fun move member => of_decide_eq_true (passed.1 move member), passed.2⟩

theorem exists_traces (system : System State Event) (allowed : State → Event → Prop)
    [∀ state event, Decidable (allowed state event)] (start : State) (events more : List Event)
    (check : State → State → Bool)
    (passed : (system.replay start events).any (fun first =>
      (first.1.all fun move => allowed move.before move.event) &&
        (system.replay first.2 more).any fun second =>
          (second.1.all fun move => allowed move.before move.event) &&
            check first.2 second.2) = true) :
    ∃ before middle after state, system.Trace allowed start before middle ∧
      system.Trace allowed middle after state ∧ check middle state = true := by
  obtain ⟨before, middle, first, continued⟩ := system.exists_trace allowed start events
    (fun _ middle => (system.replay middle more).any fun second =>
      (second.1.all fun move => allowed move.before move.event) && check middle second.2) passed
  obtain ⟨after, state, second, checked⟩ := system.exists_trace allowed middle more
    (fun _ state => check middle state) continued
  exact ⟨before, middle, after, state, first, second, checked⟩

end System

end RaftGo.Library
