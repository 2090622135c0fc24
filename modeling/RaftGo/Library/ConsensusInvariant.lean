import RaftGo.Library.Consensus
import RaftGo.Library.Lists

/-! The invariant of the replicated log. Every log is coherent: each of its
entries ends a prefix of the reign of the term it is stamped with. Beyond that
two clauses look into the past: what a participant acknowledged is still in its
log, and was in the log it endorsed a later candidate with, as long as the
leaders elected in between have kept it. -/

namespace RaftGo.Library.Consensus

open Ballot (put put_self put_other_term put_other_who put_cases put_keeps)
open Stamped (stamp)

variable {ι Entry : Type*} [Stamped Entry] {state next : State ι Entry}

/-- Each entry of the log ends a prefix of the reign it was written in. -/
def Coherent (state : State ι Entry) (log : List Entry) : Prop :=
  ∀ (position : Nat) (entry : Entry), log[position]? = some entry →
    state.Led (stamp entry) ∧ log.take (position + 1) <+: state.reign (stamp entry)

theorem Coherent.nil (state : State ι Entry) : Coherent state [] := by
  intro position entry found
  simp at found

theorem Coherent.of_initial {log shorter : List Entry} (coherent : Coherent state log)
    (initial : shorter <+: log) : Coherent state shorter := by
  intro position entry found
  obtain ⟨rest, rfl⟩ := initial
  have inside : position < shorter.length := (List.getElem?_eq_some_iff.mp found).1
  have here := coherent position entry (by rw [List.getElem?_append_left inside]; exact found)
  rwa [List.take_append_of_le_length (by omega)] at here

theorem Coherent.evolves {log : List Entry} (coherent : Coherent state log)
    (evolves : Evolves state next) : Coherent next log := by
  intro position entry found
  obtain ⟨led, held⟩ := coherent position entry found
  exact ⟨evolves.led led, held.trans (evolves.reign led)⟩

theorem Coherent.snoc {log : List Entry} {entry : Entry} (coherent : Coherent state log)
    (led : state.Led (stamp entry)) (written : log ++ [entry] <+: state.reign (stamp entry)) :
    Coherent state (log ++ [entry]) := by
  intro position found lookup
  rcases getElem?_snoc_cases lookup with old | ⟨rfl, rfl⟩
  · have inside := (List.getElem?_eq_some_iff.mp old).1
    rw [List.take_append_of_le_length (by omega)]
    exact coherent position found old
  · rw [List.take_of_length_le (by simp)]
    exact ⟨led, written⟩

/-- Two coherent logs that carry the same stamp at a position agree up to it. -/
theorem Coherent.agree {first second : List Entry} {position : Nat} {one two : Entry}
    (coherent₁ : Coherent state first) (coherent₂ : Coherent state second)
    (found₁ : first[position]? = some one) (found₂ : second[position]? = some two)
    (same : stamp one = stamp two) :
    first.take (position + 1) = second.take (position + 1) := by
  have held₁ := (coherent₁ position one found₁).2
  have held₂ := (coherent₂ position two found₂).2
  rw [← same] at held₂
  have inside₁ := (List.getElem?_eq_some_iff.mp found₁).1
  have inside₂ := (List.getElem?_eq_some_iff.mp found₂).1
  have lengths : (first.take (position + 1)).length = (second.take (position + 1)).length := by
    simp only [List.length_take]
    omega
  exact (List.prefix_of_prefix_length_le held₁ held₂ lengths.le).eq_of_length lengths

variable [Fintype ι]

structure Sound (state : State ι Entry) : Prop where
  ballots : Ballot.Sound state.toState
  slateFuture : ∀ term candidate, state.term candidate < term → state.slate term candidate = none
  slatePositive : ∀ term candidate log, state.slate term candidate = some log → 0 < term
  endorsedCast : ∀ term candidate voter log, state.endorsed term candidate voter log →
    state.ballot term voter = some candidate ∧ term ≤ state.term voter ∧
      ∃ standing, state.slate term candidate = some standing ∧ UpToDate standing log
  elected : ∀ term leader, state.leader term = some leader →
    ∃ standing voters, state.slate term leader = some standing ∧
      standing <+: state.reign term ∧ IsMajority voters ∧
      ∀ voter ∈ voters, ∃ log, state.endorsed term leader voter log
  logCoherent : ∀ participant, Coherent state (state.log participant)
  reignCoherent : ∀ term, state.Led term → Coherent state (state.reign term)
  slateCoherent : ∀ term candidate log, state.slate term candidate = some log → Coherent state log
  endorsedCoherent : ∀ term candidate voter log, state.endorsed term candidate voter log →
    Coherent state log
  logStamp : ∀ participant, ∀ entry ∈ state.log participant, stamp entry ≤ state.term participant
  reignStamp : ∀ term, ∀ entry ∈ state.reign term, stamp entry ≤ term
  slateStamp : ∀ term candidate log, state.slate term candidate = some log →
    ∀ entry ∈ log, stamp entry < term
  reigning : ∀ participant, state.leader (state.term participant) = some participant →
    state.log participant = state.reign (state.term participant)
  vacantReign : ∀ term, ¬ state.Led term → state.reign term = []
  ackedBound : ∀ term participant, state.acked term participant ≤ (state.reign term).length
  ackedPast : ∀ term participant, state.acked term participant ≠ 0 → term ≤ state.term participant
  /-- An acknowledged prefix stays while the later leaders up to the
  participant's term keep it. -/
  ackedKept : ∀ term participant length, length ≤ state.acked term participant →
    (∀ later, term < later → later ≤ state.term participant → state.Led later →
      (state.reign term).take length <+: state.reign later) →
    (state.reign term).take length <+: state.log participant
  /-- An acknowledged prefix was in the log endorsed in a later term, if the
  leaders strictly between the two terms keep it. -/
  ackedEndorsed : ∀ term participant length opened candidate log,
    length ≤ state.acked term participant → term < opened →
    state.endorsed opened candidate participant log →
    (∀ later, term < later → later < opened → state.Led later →
      (state.reign term).take length <+: state.reign later) →
    (state.reign term).take length <+: log

theorem Sound.initial : Sound (State.initial : State ι Entry) where
  ballots := Ballot.Sound.initial
  slateFuture _ _ _ := rfl
  slatePositive _ _ _ slated := by cases slated
  endorsedCast _ _ _ _ support := by cases support
  elected _ _ leads := by cases leads
  logCoherent _ := Coherent.nil _
  reignCoherent _ _ := Coherent.nil _
  slateCoherent _ _ _ slated := by cases slated
  endorsedCoherent _ _ _ _ support := by cases support
  logStamp _ _ member := by cases member
  reignStamp _ _ member := by cases member
  slateStamp _ _ _ slated := by cases slated
  reigning _ _ := rfl
  vacantReign _ _ := rfl
  ackedBound _ _ := Nat.le_refl _
  ackedPast _ _ acked := absurd rfl acked
  ackedKept _ _ _ _ _ := by simp [State.initial]
  ackedEndorsed _ _ _ _ _ _ _ _ support _ := by cases support

variable [DecidableEq ι] [DecidableEq Entry] {actor : ι}

/-! What one step can do to each part of the state. -/

theorem Step.log_cases (step : Step state actor next) (participant : ι) :
    next.log participant = state.log participant ∨
    (next.term participant = state.term participant ∧
      ∃ entry, state.leader (state.term participant) = some participant ∧
        stamp entry = state.term participant ∧
        next.log participant = state.log participant ++ [entry] ∧
        next.reign (state.term participant) = state.reign (state.term participant) ++ [entry]) ∨
    (next.term participant = state.term participant ∧ next.reign = state.reign ∧
      ∃ length, state.Led (state.term participant) ∧
        next.log participant =
          graft (state.log participant) ((state.reign (state.term participant)).take length)) := by
  cases step with
  | append entry leads stamped =>
    by_cases same : participant = actor
    · subst same
      exact .inr (.inl ⟨rfl, entry, leads, stamped, by simp, by simp⟩)
    · exact .inl (Function.update_of_ne same _ _)
  | adopt length led bounded =>
    by_cases same : participant = actor
    · subst same
      exact .inr (.inr ⟨rfl, rfl, length, led, by simp⟩)
    · exact .inl (Function.update_of_ne same _ _)
  | _ => exact .inl rfl

theorem Step.reign_cases (step : Step state actor next) (term : Nat) :
    (next.reign term = state.reign term ∧ next.leader term = state.leader term) ∨
    (state.leader term = none ∧ ∃ candidate, term = state.term candidate ∧
      next.leader term = some candidate ∧ next.log candidate = state.log candidate ∧
      state.slate term candidate = some (state.log candidate) ∧
      next.reign term = state.log candidate ∧
      ∃ voters, IsMajority voters ∧
        ∀ voter ∈ voters, ∃ log, state.endorsed term candidate voter log) ∨
    (next.leader term = state.leader term ∧ ∃ leader entry, state.leader term = some leader ∧
      term = state.term leader ∧ stamp entry = term ∧
      next.reign term = state.reign term ++ [entry]) := by
  cases step with
  | elect voters vacant slated majority support =>
    by_cases same : term = state.term actor
    · subst same
      exact .inr (.inl ⟨vacant, actor, rfl, by simp, rfl, slated, by simp, voters, majority,
        support⟩)
    · exact .inl ⟨Function.update_of_ne same _ _, Function.update_of_ne same _ _⟩
  | append entry leads stamped =>
    by_cases same : term = state.term actor
    · subst same
      exact .inr (.inr ⟨rfl, actor, entry, leads, rfl, stamped, by simp⟩)
    · exact .inl ⟨Function.update_of_ne same _ _, rfl⟩
  | _ => exact .inl ⟨rfl, rfl⟩

theorem Step.slate_cases (step : Step state actor next) {term : Nat} {candidate : ι} {log : List Entry}
    (slated : next.slate term candidate = some log) :
    state.slate term candidate = some log ∨
      (state.term candidate < term ∧ next.term candidate = term ∧ log = state.log candidate) := by
  cases step with
  | stand opened later fresh unslated =>
    rcases put_cases state.slate opened term actor candidate
      (some (state.log actor)) with ⟨rfl, rfl, written⟩ | ⟨_, kept⟩
    · exact .inr ⟨later, by simp, (Option.some.inj (written.symm.trans slated)).symm⟩
    · exact .inl (kept.symm.trans slated)
  | _ => exact .inl slated

theorem Step.endorsed_cases (step : Step state actor next) {term : Nat} {candidate voter : ι}
    {log : List Entry} (support : next.endorsed term candidate voter log) :
    state.endorsed term candidate voter log ∨
      (term = state.term voter ∧ next = { state with endorsed := next.endorsed } ∧
        log = state.log voter ∧ state.ballot term voter = some candidate ∧
        ¬ state.Led term ∧ ∃ standing, state.slate term candidate = some standing ∧
          UpToDate standing log) := by
  cases step with
  | endorse chosen standing cast vacant slated compared =>
    rcases support with old | ⟨rfl, rfl, rfl, rfl⟩
    · exact .inl old
    · refine .inr ⟨rfl, rfl, rfl, cast, ?_, standing, slated, compared⟩
      rintro ⟨leader, leads⟩
      simp [vacant] at leads
  | _ => exact .inl support

theorem Step.acked_cases (step : Step state actor next) (term : Nat) (participant : ι) :
    next.acked term participant = state.acked term participant ∨
    (term = state.term participant ∧ next.term participant = state.term participant ∧
      ((∃ length, length ≤ (state.reign term).length ∧ state.Led term ∧
          next.reign = state.reign ∧
          next.acked term participant = max (state.acked term participant) length ∧
          next.log participant =
            graft (state.log participant) ((state.reign term).take length)) ∨
        (next.acked term participant =
            max (state.acked term participant) (next.reign term).length ∧
          ((state.leader term = none ∧ next.reign term = state.log participant ∧
              next.log participant = state.log participant) ∨
            (state.leader term = some participant ∧ ∃ entry,
              next.reign term = state.reign term ++ [entry] ∧
              next.log participant = state.log participant ++ [entry]))))) := by
  cases step with
  | elect voters vacant slated majority support =>
    rcases put_cases state.acked (state.term actor) term actor participant _ with
      ⟨rfl, rfl, written⟩ | ⟨_, kept⟩
    · exact .inr ⟨rfl, rfl, .inr ⟨by simp, .inl ⟨vacant, by simp, rfl⟩⟩⟩
    · exact .inl kept
  | append entry leads stamped =>
    rcases put_cases state.acked (state.term actor) term actor participant _ with
      ⟨rfl, rfl, written⟩ | ⟨_, kept⟩
    · exact .inr ⟨rfl, rfl, .inr ⟨by simp, .inr ⟨leads, entry, by simp, by simp⟩⟩⟩
    · exact .inl kept
  | adopt length led bounded =>
    rcases put_cases state.acked (state.term actor) term actor participant _ with
      ⟨rfl, rfl, written⟩ | ⟨_, kept⟩
    · exact .inr ⟨rfl, rfl, .inl ⟨length, bounded, led, rfl, by simp, by simp⟩⟩
    · exact .inl kept
  | _ => exact .inl rfl

/-! Preservation, one clause at a time. -/

theorem Sound.ballots_step (sound : Sound state) (step : Step state actor next) :
    Ballot.Sound next.toState := by
  cases step with
  | bump term later => exact sound.ballots.step (.bump term later)
  | stand term later fresh =>
    exact sound.ballots.step (.stand term later fresh)
  | vote candidate free => exact sound.ballots.step (.vote candidate free)
  | elect voters vacant slated majority support =>
    refine sound.ballots.step (.elect _ voters (by simp [vacant]) majority ?_)
    intro voter member
    obtain ⟨log, endorsement⟩ := support voter member
    exact (sound.endorsedCast _ _ _ _ endorsement).1
  | _ => exact sound.ballots

theorem Sound.slateFuture_step (sound : Sound state) (step : Step state actor next) (term : Nat)
    (candidate : ι) (ahead : next.term candidate < term) : next.slate term candidate = none := by
  rcases found : next.slate term candidate with _ | log
  · rfl
  · have before := (step.evolves.term candidate).trans_lt ahead
    rcases step.slate_cases found with old | ⟨_, reached, _⟩
    · rw [sound.slateFuture _ _ before] at old
      cases old
    · omega

theorem Sound.slatePositive_step (sound : Sound state) (step : Step state actor next) (term : Nat)
    (candidate : ι) (log : List Entry) (slated : next.slate term candidate = some log) :
    0 < term := by
  rcases step.slate_cases slated with old | ⟨later, _, _⟩
  · exact sound.slatePositive _ _ _ old
  · omega

theorem Sound.endorsedCast_step (sound : Sound state) (step : Step state actor next) (term : Nat)
    (candidate voter : ι) (log : List Entry) (support : next.endorsed term candidate voter log) :
    next.ballot term voter = some candidate ∧ term ≤ next.term voter ∧
      ∃ standing, next.slate term candidate = some standing ∧ UpToDate standing log := by
  have evolves := step.evolves
  rcases step.endorsed_cases support with old | ⟨here, _, _, cast, _, standing, slated, compared⟩
  · obtain ⟨cast, reached, standing, slated, compared⟩ := sound.endorsedCast _ _ _ _ old
    exact ⟨evolves.ballot cast, reached.trans (evolves.term voter), standing,
      evolves.slate slated, compared⟩
  · exact ⟨evolves.ballot cast, here.le.trans (evolves.term voter), standing,
      evolves.slate slated, compared⟩

theorem Sound.elected_step (sound : Sound state) (step : Step state actor next) (term : Nat)
    (leader : ι) (leads : next.leader term = some leader) :
    ∃ standing voters, next.slate term leader = some standing ∧
      standing <+: next.reign term ∧ IsMajority voters ∧
      ∀ voter ∈ voters, ∃ log, next.endorsed term leader voter log := by
  have evolves := step.evolves
  have inherit (old : state.leader term = some leader) :
      ∃ standing voters, next.slate term leader = some standing ∧
        standing <+: next.reign term ∧ IsMajority voters ∧
        ∀ voter ∈ voters, ∃ log, next.endorsed term leader voter log := by
    obtain ⟨standing, voters, slated, written, majority, support⟩ := sound.elected _ _ old
    refine ⟨standing, voters, evolves.slate slated, written.trans (evolves.reign ⟨leader, old⟩),
      majority, ?_⟩
    intro voter member
    obtain ⟨log, endorsement⟩ := support voter member
    exact ⟨log, evolves.endorsed endorsement⟩
  rcases step.reign_cases term with ⟨_, same⟩ |
    ⟨_, candidate, _, chosen, _, slated, taken, voters, majority, support⟩ | ⟨same, _⟩
  · exact inherit (same ▸ leads)
  · have identical := Option.some.inj (chosen.symm.trans leads)
    subst identical
    refine ⟨_, voters, evolves.slate slated, by rw [taken], majority, ?_⟩
    intro voter member
    obtain ⟨log, endorsement⟩ := support voter member
    exact ⟨log, evolves.endorsed endorsement⟩
  · exact inherit (same ▸ leads)

theorem Sound.reigning_step (sound : Sound state) (step : Step state actor next) (participant : ι)
    (leads : next.leader (next.term participant) = some participant) :
    next.log participant = next.reign (next.term participant) := by
  -- A participant whose term has just changed cannot lead it: leaders stood there before.
  have stable : next.term participant = state.term participant := by
    by_contra moved
    have ahead : state.term participant < next.term participant :=
      lt_of_le_of_ne (step.evolves.term participant) (Ne.symm moved)
    have unled : state.leader (next.term participant) ≠ some participant := by
      intro old
      obtain ⟨_, _, earlier, _⟩ := sound.elected _ _ old
      rw [sound.slateFuture _ _ ahead] at earlier
      cases earlier
    rcases step.reign_cases (next.term participant) with ⟨_, same⟩ | ⟨_, candidate, _, chosen, _,
      standing, _⟩ | ⟨same, _⟩
    · exact unled (same ▸ leads)
    · have identical := Option.some.inj (chosen.symm.trans leads)
      subst identical
      rw [sound.slateFuture _ _ ahead] at standing
      cases standing
    · exact unled (same ▸ leads)
  rw [stable] at leads ⊢
  cases step with
  | elect voters vacant slated majority support =>
    by_cases same : state.term participant = state.term actor
    · have chosen : actor = participant := by simpa [same] using leads
      subst chosen
      simp
    · have old : state.leader (state.term participant) = some participant := by
        simpa [Function.update_of_ne same] using leads
      simpa [Function.update_of_ne same] using sound.reigning _ old
  | append entry rules stamped =>
    have old := sound.reigning _ leads
    by_cases same : participant = actor
    · subst same
      simp [old]
    · have elsewhere : state.term participant ≠ state.term actor := by
        intro equal
        rw [← equal] at rules
        exact same (Option.some.inj (leads.symm.trans rules))
      simpa [Function.update_of_ne same, Function.update_of_ne elsewhere] using old
  | adopt length led bounded =>
    have old := sound.reigning _ leads
    by_cases same : participant = actor
    · subst same
      have held : (state.reign (state.term participant)).take length <+:
          state.log participant := by
        rw [old]
        exact List.take_prefix _ _
      simpa [graft_of_initial held] using old
    · simpa [Function.update_of_ne same] using old
  | _ => exact sound.reigning _ leads

theorem Sound.reignStamp_step (sound : Sound state) (step : Step state actor next) (term : Nat) :
    ∀ entry ∈ next.reign term, stamp entry ≤ term := by
  intro entry member
  rcases step.reign_cases term with ⟨same, _⟩ | ⟨_, candidate, here, _, _, _, taken, _⟩ |
    ⟨_, leader, written, _, _, stamped, grown⟩
  · rw [same] at member
    exact sound.reignStamp _ _ member
  · rw [taken] at member
    rw [here]
    exact sound.logStamp _ _ member
  · rw [grown] at member
    rcases List.mem_append.mp member with old | new
    · exact sound.reignStamp _ _ old
    · rw [List.mem_singleton.mp new, stamped]

theorem Sound.logStamp_step (sound : Sound state) (step : Step state actor next) (participant : ι) :
    ∀ entry ∈ next.log participant, stamp entry ≤ next.term participant := by
  intro entry member
  rcases step.log_cases participant with same | ⟨stay, written, _, stamped, grown, _⟩ |
    ⟨stay, _, length, _, adopted⟩
  · rw [same] at member
    exact (sound.logStamp _ _ member).trans (step.evolves.term participant)
  · rw [grown] at member
    rw [stay]
    rcases List.mem_append.mp member with old | new
    · exact sound.logStamp _ _ old
    · rw [List.mem_singleton.mp new, stamped]
  · rw [adopted] at member
    rw [stay]
    rcases graft_cases (state.log participant)
      ((state.reign (state.term participant)).take length) with kept | replaced
    · exact sound.logStamp _ _ (kept ▸ member)
    · rw [replaced] at member
      exact sound.reignStamp _ _ (List.mem_of_mem_take member)

theorem Sound.slateStamp_step (sound : Sound state) (step : Step state actor next) (term : Nat)
    (candidate : ι) (log : List Entry) (slated : next.slate term candidate = some log) :
    ∀ entry ∈ log, stamp entry < term := by
  intro entry member
  rcases step.slate_cases slated with old | ⟨later, _, rfl⟩
  · exact sound.slateStamp _ _ _ old _ member
  · exact (sound.logStamp _ _ member).trans_lt later

theorem Sound.logCoherent_step (sound : Sound state) (step : Step state actor next) (participant : ι) :
    Coherent next (next.log participant) := by
  have evolves := step.evolves
  rcases step.log_cases participant with same | ⟨_, entry, leads, stamped, grown, reign⟩ |
    ⟨_, _, length, led, adopted⟩
  · rw [same]
    exact (sound.logCoherent participant).evolves evolves
  · rw [grown]
    apply ((sound.logCoherent participant).evolves evolves).snoc
    · rw [stamped]
      exact evolves.led ⟨_, leads⟩
    · rw [stamped, reign, sound.reigning _ leads]
  · rw [adopted]
    rcases graft_cases (state.log participant)
      ((state.reign (state.term participant)).take length) with kept | replaced
    · rw [kept]
      exact (sound.logCoherent participant).evolves evolves
    · rw [replaced]
      exact ((sound.reignCoherent _ led).of_initial (List.take_prefix _ _)).evolves evolves

theorem Sound.reignCoherent_step (sound : Sound state) (step : Step state actor next) (term : Nat)
    (led : next.Led term) : Coherent next (next.reign term) := by
  have evolves := step.evolves
  rcases step.reign_cases term with ⟨same, leader⟩ | ⟨_, candidate, _, _, _, _, taken, _⟩ |
    ⟨_, leader, entry, leads, _, stamped, grown⟩
  · rw [same]
    refine (sound.reignCoherent term ?_).evolves evolves
    obtain ⟨chosen, leads⟩ := led
    exact ⟨chosen, leader ▸ leads⟩
  · rw [taken]
    exact (sound.logCoherent candidate).evolves evolves
  · rw [grown]
    apply ((sound.reignCoherent term ⟨leader, leads⟩).evolves evolves).snoc
    · rw [stamped]
      exact led
    · rw [stamped, grown]

theorem Sound.slateCoherent_step (sound : Sound state) (step : Step state actor next) (term : Nat)
    (candidate : ι) (log : List Entry) (slated : next.slate term candidate = some log) :
    Coherent next log := by
  rcases step.slate_cases slated with old | ⟨_, _, rfl⟩
  · exact (sound.slateCoherent _ _ _ old).evolves step.evolves
  · exact (sound.logCoherent candidate).evolves step.evolves

theorem Sound.endorsedCoherent_step (sound : Sound state) (step : Step state actor next) (term : Nat)
    (candidate voter : ι) (log : List Entry) (support : next.endorsed term candidate voter log) :
    Coherent next log := by
  rcases step.endorsed_cases support with old | ⟨_, _, rfl, _⟩
  · exact (sound.endorsedCoherent _ _ _ _ old).evolves step.evolves
  · exact (sound.logCoherent voter).evolves step.evolves

theorem Sound.vacantReign_step (sound : Sound state) (step : Step state actor next) (term : Nat)
    (vacant : ¬ next.Led term) : next.reign term = [] := by
  rcases step.reign_cases term with ⟨same, leader⟩ | ⟨_, candidate, _, chosen, _⟩ |
    ⟨_, leader, _, leads, _⟩
  · rw [same]
    apply sound.vacantReign
    rintro ⟨chosen, leads⟩
    exact vacant ⟨chosen, leader.trans leads⟩
  · exact absurd ⟨candidate, chosen⟩ vacant
  · exact absurd ⟨leader, step.evolves.leader leads⟩ vacant

theorem Sound.reign_le (sound : Sound state) (step : Step state actor next) (term : Nat) :
    state.reign term <+: next.reign term := by
  by_cases led : state.Led term
  · exact step.evolves.reign led
  · rw [sound.vacantReign _ led]
    exact List.nil_prefix

theorem Sound.ackedBound_step (sound : Sound state) (step : Step state actor next) (term : Nat)
    (participant : ι) : next.acked term participant ≤ (next.reign term).length := by
  have grown := (sound.reign_le step term).length_le
  have old := sound.ackedBound term participant
  rcases step.acked_cases term participant with same | ⟨_, _, ⟨length, bounded, _, _, raised, _⟩ |
    ⟨raised, _⟩⟩
  · omega
  · omega
  · omega

theorem Sound.ackedPast_step (sound : Sound state) (step : Step state actor next) (term : Nat)
    (participant : ι) (acked : next.acked term participant ≠ 0) :
    term ≤ next.term participant := by
  rcases step.acked_cases term participant with same | ⟨here, stay, _⟩
  · rw [same] at acked
    exact (sound.ackedPast _ _ acked).trans (step.evolves.term participant)
  · rw [here, stay]

/-- An acknowledged prefix does not change when its reign grows. -/
theorem Sound.take_step (sound : Sound state) (step : Step state actor next) {term length : Nat}
    (bounded : length ≤ (state.reign term).length) :
    (next.reign term).take length = (state.reign term).take length := by
  obtain ⟨rest, grown⟩ := sound.reign_le step term
  rw [← grown, List.take_append_of_le_length bounded]

/-- What an old term wrote cannot enter a later reign by what that reign appends. -/
theorem Sound.prefix_back (sound : Sound state) (step : Step state actor next)
    {term later length : Nat} (order : term < later) (led : state.Led later)
    (held : (state.reign term).take length <+: next.reign later) :
    (state.reign term).take length <+: state.reign later := by
  rcases step.reign_cases later with ⟨same, _⟩ | ⟨vacant, _⟩ |
    ⟨_, leader, entry, _, _, stamped, grown⟩
  · exact same ▸ held
  · obtain ⟨leader, leads⟩ := led
    simp [vacant] at leads
  · rw [grown, List.prefix_concat_iff] at held
    rcases held with whole | shorter
    · have member : entry ∈ (state.reign term).take length := by simp [whole]
      have bound := sound.reignStamp _ _ (List.mem_of_mem_take member)
      omega
    · exact shorter

theorem Sound.ackedKept_old (sound : Sound state) (step : Step state actor next) {term length : Nat}
    {participant : ι} (acked : length ≤ state.acked term participant)
    (kept : ∀ later, term < later → later ≤ next.term participant → next.Led later →
      (next.reign term).take length <+: next.reign later) :
    (state.reign term).take length <+: next.log participant := by
  rcases Nat.eq_zero_or_pos length with rfl | positive
  · simp
  have bounded := acked.trans (sound.ackedBound term participant)
  have reached := sound.ackedPast term participant (by omega)
  have before : ∀ later, term < later → later ≤ state.term participant → state.Led later →
      (state.reign term).take length <+: state.reign later := by
    intro later order within led
    refine sound.prefix_back step order led ?_
    rw [← sound.take_step step bounded]
    exact kept later order (within.trans (step.evolves.term participant)) (step.evolves.led led)
  have held := sound.ackedKept term participant length acked before
  rcases step.log_cases participant with same | ⟨_, entry, _, _, grown, _⟩ |
    ⟨_, _, other, led, adopted⟩
  · rwa [same]
  · rw [grown]
    exact held.trans (List.prefix_append _ _)
  · rw [adopted]
    apply graft_keeps (List.take_prefix _ _) _ held
    rcases reached.eq_or_lt with rfl | earlier
    · exact List.take_prefix _ _
    · exact before _ earlier (Nat.le_refl _) led

theorem Sound.ackedKept_step (sound : Sound state) (step : Step state actor next) (term : Nat)
    (participant : ι) (length : Nat) (acked : length ≤ next.acked term participant)
    (kept : ∀ later, term < later → later ≤ next.term participant → next.Led later →
      (next.reign term).take length <+: next.reign later) :
    (next.reign term).take length <+: next.log participant := by
  by_cases old : length ≤ state.acked term participant
  · rw [sound.take_step step (old.trans (sound.ackedBound term participant))]
    exact sound.ackedKept_old step old kept
  · rcases step.acked_cases term participant with same | ⟨_, _, ⟨other, _, _, reign, raised,
      adopted⟩ | ⟨_, ⟨_, reign, log⟩ | ⟨leads, entry, reign, log⟩⟩⟩
    · omega
    · rw [reign, adopted]
      have shorter : length ≤ other := by omega
      exact (List.take_prefix_take_left shorter).trans fresh_prefix_graft
    · rw [reign, log]
      exact List.take_prefix _ _
    · rename_i here _ _
      subst here
      rw [reign, log, sound.reigning _ leads]
      exact List.take_prefix _ _

theorem Sound.ackedEndorsed_step (sound : Sound state) (step : Step state actor next) (term : Nat)
    (participant : ι) (length opened : Nat) (candidate : ι) (log : List Entry)
    (acked : length ≤ next.acked term participant) (order : term < opened)
    (support : next.endorsed opened candidate participant log)
    (kept : ∀ later, term < later → later < opened → next.Led later →
      (next.reign term).take length <+: next.reign later) :
    (next.reign term).take length <+: log := by
  have opened_le := (sound.endorsedCast_step step _ _ _ _ support).2.1
  -- Acknowledgements are given in the current term only, so this one is not new.
  have old : length ≤ state.acked term participant := by
    rcases step.acked_cases term participant with same | ⟨here, stay, _⟩
    · omega
    · omega
  have bounded := old.trans (sound.ackedBound term participant)
  rw [sound.take_step step bounded] at kept ⊢
  have before : ∀ later, term < later → later < opened → state.Led later →
      (state.reign term).take length <+: state.reign later := fun later after within led =>
    sound.prefix_back step after led (kept later after within (step.evolves.led led))
  rcases step.endorsed_cases support with earlier | ⟨here, _, rfl, _, vacant, _⟩
  · exact sound.ackedEndorsed _ _ _ _ _ _ old order earlier before
  · apply sound.ackedKept _ _ _ old
    intro later after within led
    rcases within.eq_or_lt with rfl | strictly
    · exact absurd (here ▸ led) vacant
    · exact before later after (here ▸ strictly) led

theorem Sound.step (sound : Sound state) (step : Step state actor next) : Sound next where
  ballots := sound.ballots_step step
  slateFuture := sound.slateFuture_step step
  slatePositive := sound.slatePositive_step step
  endorsedCast := sound.endorsedCast_step step
  elected := sound.elected_step step
  logCoherent := sound.logCoherent_step step
  reignCoherent := sound.reignCoherent_step step
  slateCoherent := sound.slateCoherent_step step
  endorsedCoherent := sound.endorsedCoherent_step step
  logStamp := sound.logStamp_step step
  reignStamp := sound.reignStamp_step step
  slateStamp := sound.slateStamp_step step
  reigning := sound.reigning_step step
  vacantReign := sound.vacantReign_step step
  ackedBound := sound.ackedBound_step step
  ackedPast := sound.ackedPast_step step
  ackedKept := sound.ackedKept_step step
  ackedEndorsed := sound.ackedEndorsed_step step

end RaftGo.Library.Consensus
