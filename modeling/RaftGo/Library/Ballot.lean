import RaftGo.Library.Majority

/-! Terms, votes and elections, without logs. Participants hold a term that only
grows and cast at most one vote a term; a participant leads a term once a
majority has voted for it there. The vote history is kept for every term, so the
vote a participant holds now is its entry for its current term. -/

namespace RaftGo.Library.Ballot

structure State (ι : Type*) where
  term : ι → Nat
  ballot : Nat → ι → Option ι
  leader : Nat → Option ι

variable {ι : Type*} [DecidableEq ι]

def State.initial : State ι where
  term _ := 0
  ballot _ _ := none
  leader _ := none

/-- Overwrite one cell of a table indexed by term and participant. -/
def put {α : Type*} (table : Nat → ι → α) (term : Nat) (who : ι) (value : α) : Nat → ι → α :=
  fun other participant =>
    if other = term ∧ participant = who then value else table other participant

section Put

variable {α : Type*} {table : Nat → ι → α} {term other : Nat} {who participant : ι} {value : α}

@[simp] theorem put_self : put table term who value term who = value := by
  simp [put]

theorem put_other_term (different : other ≠ term) :
    put table term who value other participant = table other participant := by
  simp [put, different]

theorem put_other_who (different : participant ≠ who) :
    put table term who value other participant = table other participant := by
  simp [put, different]

theorem put_cases (table : Nat → ι → α) (term other : Nat) (who participant : ι) (value : α) :
    (other = term ∧ participant = who ∧ put table term who value other participant = value) ∨
    (¬ (other = term ∧ participant = who) ∧
      put table term who value other participant = table other participant) := by
  unfold put
  split
  · rename_i same
    exact .inl ⟨same.1, same.2, rfl⟩
  · rename_i different
    exact .inr ⟨different, rfl⟩

/-- A cell already filled survives a write that does not contradict it. -/
theorem put_keeps {table : Nat → ι → Option α} {entry : α}
    (free : ∀ earlier, table term who = some earlier → earlier = value)
    (found : table other participant = some entry) :
    put table term who (some value) other participant = some entry := by
  rcases put_cases table term other who participant (some value) with
    ⟨rfl, rfl, written⟩ | ⟨_, kept⟩
  · rw [written, free _ found]
  · rw [kept, found]

end Put

variable [Fintype ι]

inductive Step (state : State ι) (actor : ι) : State ι → Prop where
  /-- A participant learns of a later term. -/
  | bump (term : Nat) (later : state.term actor < term) :
      Step state actor { state with term := Function.update state.term actor term }
  /-- A participant opens a later term by voting for itself. -/
  | stand (term : Nat) (later : state.term actor < term)
      (fresh : state.ballot term actor = none) :
      Step state actor { state with
        term := Function.update state.term actor term
        ballot := put state.ballot term actor (some actor) }
  /-- A participant votes in its current term. -/
  | vote (candidate : ι)
      (free : ∀ earlier, state.ballot (state.term actor) actor = some earlier →
        earlier = candidate) :
      Step state actor { state with
        ballot := put state.ballot (state.term actor) actor (some candidate) }
  /-- A majority of the votes of a term makes a leader. -/
  | elect (term : Nat) (voters : Finset ι)
      (vacant : ∀ other, state.leader term = some other → other = actor)
      (majority : IsMajority voters)
      (votes : ∀ voter ∈ voters, state.ballot term voter = some actor) :
      Step state actor { state with leader := Function.update state.leader term (some actor) }

variable {state next : State ι} {actor : ι}

theorem Step.leader_stable (step : Step state actor next) {term : Nat} {leader : ι}
    (leads : state.leader term = some leader) : next.leader term = some leader := by
  cases step with
  | elect opened voters vacant majority votes =>
    by_cases same : term = opened
    · subst same
      simp [vacant _ leads]
    · simpa [Function.update_of_ne same] using leads
  | _ => exact leads

theorem Step.ballot_stable (step : Step state actor next) {term : Nat} {voter candidate : ι}
    (cast : state.ballot term voter = some candidate) : next.ballot term voter = some candidate := by
  cases step with
  | stand opened later fresh =>
    exact put_keeps (fun earlier found => by simp [fresh] at found) cast
  | vote chosen free => exact put_keeps free cast
  | _ => exact cast

theorem Step.term_le (step : Step state actor next) (participant : ι) :
    state.term participant ≤ next.term participant := by
  have raised {opened : Nat} (later : state.term actor < opened) :
      state.term participant ≤ Function.update state.term actor opened participant := by
    by_cases same : participant = actor
    · subst same
      rw [Function.update_self]
      exact Nat.le_of_lt later
    · rw [Function.update_of_ne same]
  cases step with
  | bump opened later => exact raised later
  | stand opened later fresh => exact raised later
  | _ => exact Nat.le_refl _

/-- A step leaves the term and the votes of everybody else alone. -/
theorem Step.other (step : Step state actor next) {other : ι} (different : other ≠ actor) :
    next.term other = state.term other ∧ ∀ term, next.ballot term other = state.ballot term other := by
  cases step with
  | bump opened later => exact ⟨Function.update_of_ne different _ _, fun _ => rfl⟩
  | stand opened later fresh =>
    exact ⟨Function.update_of_ne different _ _, fun _ => put_other_who different⟩
  | vote candidate free => exact ⟨rfl, fun _ => put_other_who different⟩
  | elect opened voters vacant majority votes => exact ⟨rfl, fun _ => rfl⟩

/-- What every reachable state satisfies: nobody has voted in a term it has not
reached, and every leader has a majority of the votes of its term. -/
structure Sound (state : State ι) : Prop where
  future : ∀ term voter, state.term voter < term → state.ballot term voter = none
  won : ∀ term leader, state.leader term = some leader →
    ∃ voters, IsMajority voters ∧ ∀ voter ∈ voters, state.ballot term voter = some leader

omit [DecidableEq ι] in
theorem Sound.initial : Sound (State.initial : State ι) where
  future _ _ _ := rfl
  won _ _ leads := by cases leads

theorem Sound.future_step (sound : Sound state) (step : Step state actor next) (term : Nat) (voter : ι)
    (ahead : next.term voter < term) : next.ballot term voter = none := by
  cases step with
  | bump opened later =>
    apply sound.future
    by_cases same : voter = actor
    · subst same
      simp only [Function.update_self] at ahead
      omega
    · simpa [Function.update_of_ne same] using ahead
  | stand opened later fresh =>
    by_cases same : voter = actor
    · subst same
      simp only [Function.update_self] at ahead
      exact (put_other_term (Nat.ne_of_gt ahead)).trans
        (sound.future _ _ (later.trans ahead))
    · exact (put_other_who same).trans
        (sound.future _ _ (by simpa [Function.update_of_ne same] using ahead))
  | vote candidate free =>
    have reached : ¬ (term = state.term actor ∧ voter = actor) := by
      rintro ⟨rfl, rfl⟩
      exact absurd ahead (Nat.lt_irrefl _)
    simpa [put, reached] using sound.future _ _ ahead
  | elect opened voters vacant majority votes => exact sound.future _ _ ahead

theorem Sound.step (sound : Sound state) (step : Step state actor next) : Sound next where
  future := sound.future_step step
  won term leader leads := by
    by_cases old : state.leader term = some leader
    · obtain ⟨voters, majority, votes⟩ := sound.won _ _ old
      exact ⟨voters, majority, fun voter member => step.ballot_stable (votes voter member)⟩
    · cases step with
      | elect opened voters vacant majority votes =>
        by_cases same : term = opened
        · subst same
          have chosen : actor = leader := by simpa using leads
          subst chosen
          exact ⟨voters, majority, votes⟩
        · exact absurd (by simpa [Function.update_of_ne same] using leads) old
      | _ => exact absurd leads old

/-- A majority of the votes of a term can only be for the leader of that term. -/
theorem Sound.winner_unique (sound : Sound state) {term : Nat} {leader candidate : ι}
    {voters : Finset ι} (leads : state.leader term = some leader) (majority : IsMajority voters)
    (votes : ∀ voter ∈ voters, state.ballot term voter = some candidate) : leader = candidate := by
  obtain ⟨others, otherMajority, otherVotes⟩ := sound.won _ _ leads
  obtain ⟨shared, first, second⟩ := otherMajority.meet majority
  exact Option.some.inj ((otherVotes shared first).symm.trans (votes shared second))

end RaftGo.Library.Ballot
