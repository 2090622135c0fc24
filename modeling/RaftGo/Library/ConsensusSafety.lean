import RaftGo.Library.ConsensusInvariant

/-! Safety of the replicated log. A position written in a term and acknowledged
by a majority there is in the reign of every later term; from this follow the
uniqueness of chosen entries and the fact that a majority holds each of them in
every later state. -/

namespace RaftGo.Library.Consensus

open Stamped (stamp)

variable {ι Entry : Type*} [Stamped Entry] [Fintype ι] {state next : State ι Entry}

omit [Fintype ι] in
theorem exists_last {log : List Entry} (positive : 0 < lastStamp log) :
    ∃ final, log[log.length - 1]? = some final ∧ lastStamp log = stamp final := by
  unfold lastStamp at positive ⊢
  rw [List.getLast?_eq_getElem?] at positive ⊢
  rcases found : log[log.length - 1]? with _ | final
  · simp [found] at positive
  · exact ⟨final, rfl, by simp⟩

/-- The first `length` entries of a reign end with an entry of that term, and a
majority has acknowledged them in that term. -/
def Committed (state : State ι Entry) (term length : Nat) : Prop :=
  0 < length ∧ (∃ entry, (state.reign term)[length - 1]? = some entry ∧ stamp entry = term) ∧
    ∃ voters, IsMajority voters ∧ ∀ voter ∈ voters, length ≤ state.acked term voter

/-- The entry at a position (counted from one) of a committed prefix. -/
def Chosen (state : State ι Entry) (position : Nat) (entry : Entry) : Prop :=
  0 < position ∧ ∃ term length, Committed state term length ∧ position ≤ length ∧
    (state.reign term)[position - 1]? = some entry

/-- The first `length` entries of a participant's log are part of what its terms
so far have committed. -/
def Settled (state : State ι Entry) (participant : ι) (length : Nat) : Prop :=
  length = 0 ∨ ∃ term bound, term ≤ state.term participant ∧ Committed state term bound ∧
    length ≤ bound ∧ (state.reign term).take length <+: state.log participant

/-- The first `length` positions are committed since this term at the latest. -/
def Decided (state : State ι Entry) (term length : Nat) : Prop :=
  length = 0 ∨ ∃ earlier bound, earlier ≤ term ∧ Committed state earlier bound ∧ length ≤ bound

theorem Settled.decided {participant : ι} {length : Nat}
    (settled : Settled state participant length) :
    Decided state (state.term participant) length := by
  rcases settled with nothing | ⟨earlier, bound, reached, committed, below, _⟩
  · exact .inl nothing
  · exact .inr ⟨earlier, bound, reached, committed, below⟩

theorem Decided.mono {term later length shorter : Nat} (decided : Decided state term length)
    (order : term ≤ later) (smaller : shorter ≤ length) : Decided state later shorter := by
  rcases decided with nothing | ⟨earlier, bound, reached, committed, below⟩
  · exact .inl (Nat.eq_zero_of_le_zero (nothing ▸ smaller))
  · exact .inr ⟨earlier, bound, reached.trans order, committed, smaller.trans below⟩

theorem Committed.bounded {term length : Nat} (committed : Committed state term length) :
    length ≤ (state.reign term).length := by
  obtain ⟨positive, ⟨entry, found, _⟩, _⟩ := committed
  have inside := (List.getElem?_eq_some_iff.mp found).1
  omega

theorem Sound.led_of_committed (sound : Sound state) {term length : Nat}
    (committed : Committed state term length) : state.Led term := by
  by_contra vacant
  have bounded := committed.bounded
  have positive := committed.1
  rw [sound.vacantReign _ vacant] at bounded
  simp at bounded
  omega

theorem Sound.positive (sound : Sound state) {term : Nat} (led : state.Led term) : 0 < term := by
  obtain ⟨leader, leads⟩ := led
  obtain ⟨standing, _, slated, _⟩ := sound.elected _ _ leads
  exact sound.slatePositive _ _ _ slated

theorem Sound.stamps_ordered (sound : Sound state) {log : List Entry} (coherent : Coherent state log)
    {low high : Nat} {first second : Entry} (order : low ≤ high)
    (found₁ : log[low]? = some first) (found₂ : log[high]? = some second) :
    stamp first ≤ stamp second := by
  have held := (coherent high second found₂).2
  have member : first ∈ log.take (high + 1) := by
    apply List.mem_of_getElem? (i := low)
    rw [List.getElem?_take_of_lt (by omega)]
    exact found₁
  exact sound.reignStamp _ _ (held.subset member)

theorem Sound.stamp_le_last (sound : Sound state) {log : List Entry} (coherent : Coherent state log)
    {position : Nat} {entry : Entry} (found : log[position]? = some entry) :
    stamp entry ≤ lastStamp log := by
  have inside := (List.getElem?_eq_some_iff.mp found).1
  have last : log[log.length - 1]? = some (log[log.length - 1]) :=
    List.getElem?_eq_getElem (by omega)
  simp only [lastStamp, List.getLast?_eq_getElem?, last, Option.map_some, Option.getD_some]
  exact sound.stamps_ordered coherent (by omega) found last

/-- A log that passed the comparison with one holding a committed prefix holds
that prefix itself, if the leaders up to its last term do. -/
theorem Sound.upToDate_holds (sound : Sound state) {term length : Nat} {standing log : List Entry}
    (committed : Committed state term length) (coherent : Coherent state standing)
    (coherent' : Coherent state log) (compared : UpToDate standing log)
    (held : (state.reign term).take length <+: log)
    (kept : term < lastStamp standing → (state.reign term).take length <+:
      state.reign (lastStamp standing)) :
    (state.reign term).take length <+: standing := by
  have bounded := committed.bounded
  obtain ⟨positive, ⟨entry, found, stamped⟩, quorum⟩ := committed
  have size : ((state.reign term).take length).length = length := by
    rw [List.length_take]
    omega
  have last : ((state.reign term).take length)[length - 1]? = some entry := by
    rw [List.getElem?_take_of_lt (by omega)]
    exact found
  have reached : term ≤ lastStamp standing := by
    have own := sound.stamp_le_last coherent' (getElem?_of_initial held last)
    rcases compared with later | ⟨same, _⟩ <;> omega
  have led := sound.led_of_committed ⟨positive, ⟨entry, found, stamped⟩, quorum⟩
  obtain ⟨final, closing, ends⟩ := exists_last ((sound.positive led).trans_le reached)
  have whole : standing <+: state.reign (lastStamp standing) := by
    have written := (coherent _ final closing).2
    rwa [List.take_of_length_le (by omega), ← ends] at written
  rcases reached.eq_or_lt with same | later
  · -- Both logs end in the committed term, and the longer one is the candidate's.
    rw [← same] at whole
    refine List.prefix_of_prefix_length_le (List.take_prefix _ _) whole ?_
    have own := sound.stamp_le_last coherent' (getElem?_of_initial held last)
    have long := held.length_le
    rcases compared with greater | ⟨_, longer⟩ <;> omega
  · rcases List.prefix_or_prefix_of_prefix (kept later) whole with shorter | longer
    · exact shorter
    · have member : final ∈ state.reign term :=
        List.mem_of_mem_take (longer.subset (List.mem_of_getElem? closing))
      have bound := sound.reignStamp _ _ member
      omega

variable [DecidableEq ι]

/-- The log a leader stood with holds a committed prefix of an earlier term, if the
leaders in between have kept it: the voters of its election overlap the quorum. -/
theorem Sound.elected_holds (sound : Sound state) {term length later : Nat} {leader : ι}
    {standing : List Entry} (committed : Committed state term length) (order : term < later)
    (leads : state.leader later = some leader) (slated : state.slate later leader = some standing)
    (kept : ∀ between, term < between → between < later → state.Led between →
      (state.reign term).take length <+: state.reign between) :
    (state.reign term).take length <+: standing := by
  obtain ⟨first, voters, slated₁, _, majority, support⟩ := sound.elected _ _ leads
  obtain ⟨_, _, holders, quorum, acked⟩ := id committed
  obtain ⟨shared, votes, holds⟩ := majority.meet quorum
  obtain ⟨log, endorsement⟩ := support shared votes
  obtain ⟨_, _, second, slated₂, compared⟩ := sound.endorsedCast _ _ _ _ endorsement
  have same := Option.some.inj (slated.symm.trans slated₂)
  subst same
  have held : (state.reign term).take length <+: log :=
    sound.ackedEndorsed _ _ _ _ _ _ (acked shared holds) order endorsement kept
  have coherent := sound.slateCoherent _ _ _ slated
  refine sound.upToDate_holds committed coherent (sound.endorsedCoherent _ _ _ _ endorsement)
    compared held ?_
  intro after
  obtain ⟨final, closing, ends⟩ := exists_last (term.zero_le.trans_lt after)
  have within := sound.slateStamp _ _ _ slated _ (List.mem_of_getElem? closing)
  rw [ends] at after ⊢
  exact kept _ after within (coherent _ final closing).1

/-- Leader completeness: a committed prefix is in the reign of every later term. -/
theorem Sound.leader_complete (sound : Sound state) {term length : Nat}
    (committed : Committed state term length) :
    ∀ {later : Nat}, term < later → state.Led later →
      (state.reign term).take length <+: state.reign later := by
  intro later
  -- Strong induction on the later term.
  induction later using Nat.strong_induction_on with
  | _ later ih =>
    rintro order ⟨leader, leads⟩
    obtain ⟨standing, _, slated, written, _⟩ := sound.elected _ _ leads
    exact (sound.elected_holds committed order leads slated
      fun between after within led => ih between within after led).trans written

/-- A leader of a later term held the committed prefix when it was elected. -/
theorem Sound.elected_complete (sound : Sound state) {term length later : Nat} {leader : ι}
    {standing : List Entry} (committed : Committed state term length) (order : term < later)
    (leads : state.leader later = some leader)
    (slated : state.slate later leader = some standing) :
    (state.reign term).take length <+: standing :=
  sound.elected_holds committed order leads slated
    fun _ after _ led => sound.leader_complete committed after led

/-- A committed prefix is part of the reign of every term from its own on. -/
theorem Sound.committed_reign (sound : Sound state) {term length later : Nat}
    (committed : Committed state term length) (order : term ≤ later) (led : state.Led later) :
    (state.reign term).take length <+: state.reign later := by
  rcases order.eq_or_lt with rfl | after
  · exact List.take_prefix _ _
  · exact sound.leader_complete committed after led

theorem Sound.committed_take (sound : Sound state) {earlier bound later length : Nat}
    (committed : Committed state earlier bound) (below : length ≤ bound) (order : earlier ≤ later)
    (led : state.Led later) : length ≤ (state.reign later).length ∧
      (state.reign earlier).take length = (state.reign later).take length := by
  have held := (List.take_prefix_take_left below).trans (sound.committed_reign committed order led)
  have size : ((state.reign earlier).take length).length = length := by
    rw [List.length_take, Nat.min_eq_left (below.trans committed.bounded)]
  have same := List.prefix_iff_eq_take.mp held
  rw [size] at same
  exact ⟨size ▸ held.length_le, same⟩

theorem Sound.decided_reign (sound : Sound state) {term later length : Nat}
    (decided : Decided state term length) (order : term ≤ later) (led : state.Led later) :
    length ≤ (state.reign later).length ∧ (length = 0 ∨ ∃ earlier bound, earlier ≤ term ∧
      Committed state earlier bound ∧ length ≤ bound ∧
        (state.reign earlier).take length = (state.reign later).take length) := by
  rcases decided with rfl | ⟨earlier, bound, reached, committed, below⟩
  · exact ⟨Nat.zero_le _, .inl rfl⟩
  · obtain ⟨inside, same⟩ := sound.committed_take committed below (reached.trans order) led
    exact ⟨inside, .inr ⟨earlier, bound, reached, committed, below, same⟩⟩

/-- A participant that holds what is decided, as the reign of a term has it. -/
theorem Sound.settled_of_decided (sound : Sound state) {participant : ι} {later length : Nat}
    (decided : Decided state (state.term participant) length)
    (order : state.term participant ≤ later) (led : state.Led later)
    (held : (state.reign later).take length <+: state.log participant) :
    Settled state participant length := by
  rcases (sound.decided_reign decided order led).2 with
    nothing | ⟨earlier, bound, reached, committed, below, same⟩
  · exact .inl nothing
  · exact .inr ⟨earlier, bound, reached, committed, below, same ▸ held⟩

theorem Sound.settled_reign (sound : Sound state) {participant : ι} {later length : Nat}
    (settled : Settled state participant length) (order : state.term participant ≤ later)
    (led : state.Led later) : (state.reign later).take length <+: state.log participant := by
  rcases settled with rfl | ⟨earlier, bound, reached, committed, below, held⟩
  · simp
  · rw [← (sound.committed_take committed below (reached.trans order) led).2]
    exact held

/-- What is settled agrees with every part of the reign that reaches it. -/
theorem Sound.settled_take (sound : Sound state) {participant : ι} {later length : Nat}
    {written : List Entry} (settled : Settled state participant length)
    (order : state.term participant ≤ later) (led : state.Led later)
    (initial : written <+: state.reign later) (within : length ≤ written.length) :
    (state.log participant).take length = written.take length := by
  have held := List.prefix_iff_eq_take.mp (sound.settled_reign settled order led)
  rw [List.length_take, Nat.min_eq_left (within.trans initial.length_le)] at held
  rw [← held, List.prefix_iff_eq_take.mp initial, List.take_take, Nat.min_eq_left within]

omit [DecidableEq ι] in
/-- What a participant has acknowledged in its current term is in its log. -/
theorem Sound.acked_held (sound : Sound state) {participant : ι} {length : Nat}
    (acked : length ≤ state.acked (state.term participant) participant) :
    (state.reign (state.term participant)).take length <+: state.log participant :=
  sound.ackedKept _ _ _ acked fun _ after within _ => absurd within (Nat.not_le.mpr after)

theorem Sound.settled_of_acked (sound : Sound state) {participant : ι} {length : Nat}
    (decided : Decided state (state.term participant) length)
    (led : state.Led (state.term participant))
    (acked : length ≤ state.acked (state.term participant) participant) :
    Settled state participant length :=
  sound.settled_of_decided decided (Nat.le_refl _) led (sound.acked_held acked)

/-- At most one entry is ever chosen at a position. -/
theorem Sound.chosen_unique (sound : Sound state) {position : Nat} {first second : Entry}
    (chosen₁ : Chosen state position first) (chosen₂ : Chosen state position second) :
    first = second := by
  obtain ⟨positive, term₁, length₁, committed₁, within₁, found₁⟩ := chosen₁
  obtain ⟨_, term₂, length₂, committed₂, within₂, found₂⟩ := chosen₂
  have carry {term later length longer : Nat} {one two : Entry}
      (committed : Committed state term length) (other : Committed state later longer)
      (within : position ≤ length) (order : term ≤ later)
      (found : (state.reign term)[position - 1]? = some one)
      (found' : (state.reign later)[position - 1]? = some two) : one = two := by
    have held := sound.committed_reign committed order (sound.led_of_committed other)
    have here : ((state.reign term).take length)[position - 1]? = some one := by
      rw [List.getElem?_take_of_lt (by omega)]
      exact found
    exact Option.some.inj ((getElem?_of_initial held here).symm.trans found')
  rcases Nat.le_total term₁ term₂ with order | order
  · exact carry committed₁ committed₂ within₁ order found₁ found₂
  · exact (carry committed₂ committed₁ within₂ order found₂ found₁).symm

/-- A chosen entry stands in the reign of every term from the one that decided it. -/
theorem Sound.chosen_reign (sound : Sound state) {term later position : Nat} {entry : Entry}
    (decided : Decided state term position) (chosen : Chosen state position entry)
    (order : term ≤ later) (led : state.Led later) :
    (state.reign later)[position - 1]? = some entry := by
  have positive := chosen.1
  obtain ⟨_, nothing | ⟨earlier, bound, reached, committed, below, same⟩⟩ :=
    sound.decided_reign decided order led
  · omega
  · have inside : position - 1 < (state.reign earlier).length := by
      have bounded := committed.bounded
      omega
    have found := List.getElem?_eq_getElem inside
    have unique := sound.chosen_unique chosen ⟨positive, earlier, bound, committed, below, found⟩
    rw [unique, ← found, ← List.getElem?_take_of_lt (by omega : position - 1 < position), ← same,
      List.getElem?_take_of_lt (by omega)]

omit [DecidableEq ι] in
theorem Sound.chosen_written (sound : Sound state) {position : Nat} {entry : Entry}
    (chosen : Chosen state position entry) :
    (state.reign (stamp entry))[position - 1]? = some entry := by
  obtain ⟨positive, term, length, committed, within, found⟩ := chosen
  have coherent := sound.reignCoherent term (sound.led_of_committed committed)
  refine getElem?_of_initial (coherent _ entry found).2 ?_
  rw [List.getElem?_take_of_lt (Nat.lt_succ_self _)]
  exact found

/-- A majority of the participants holds every committed prefix. -/
theorem Sound.committed_held (sound : Sound state) {term length : Nat}
    (committed : Committed state term length) : ∃ holders, IsMajority holders ∧
      ∀ holder ∈ holders, (state.reign term).take length <+: state.log holder := by
  obtain ⟨_, _, holders, majority, acked⟩ := id committed
  refine ⟨holders, majority, ?_⟩
  intro holder member
  exact sound.ackedKept _ _ _ (acked holder member)
    (fun later after _ led => sound.leader_complete committed after led)

theorem Sound.chosen_held (sound : Sound state) {position : Nat} {entry : Entry}
    (chosen : Chosen state position entry) : ∃ holders, IsMajority holders ∧
      ∀ holder ∈ holders, (state.log holder)[position - 1]? = some entry := by
  obtain ⟨positive, term, length, committed, within, found⟩ := chosen
  obtain ⟨holders, majority, held⟩ := sound.committed_held committed
  refine ⟨holders, majority, fun holder member => getElem?_of_initial (held holder member) ?_⟩
  rw [List.getElem?_take_of_lt (by omega)]
  exact found

omit [DecidableEq ι] in
/-- A settled prefix of a log consists of chosen entries. -/
theorem Settled.chosen {participant : ι} {length position : Nat}
    (settled : Settled state participant length) (positive : 0 < position)
    (within : position ≤ length) : ∃ entry,
      (state.log participant)[position - 1]? = some entry ∧ Chosen state position entry := by
  rcases settled with rfl | ⟨term, bound, _, committed, below, held⟩
  · omega
  have bounded := committed.bounded
  have found : (state.reign term)[position - 1]? = some ((state.reign term)[position - 1]) :=
    List.getElem?_eq_getElem (by omega)
  refine ⟨_, getElem?_of_initial held ?_, positive, term, bound, committed, by omega, found⟩
  rw [List.getElem?_take_of_lt (by omega)]
  exact found

omit [DecidableEq ι] in
theorem Settled.le_length {participant : ι} {length : Nat}
    (settled : Settled state participant length) : length ≤ (state.log participant).length := by
  rcases settled with rfl | ⟨term, bound, _, committed, below, held⟩
  · exact Nat.zero_le _
  have bounded := committed.bounded
  have size := held.length_le
  rw [List.length_take] at size
  omega

omit [DecidableEq ι] in
theorem Settled.mono {participant : ι} {length shorter : Nat}
    (settled : Settled state participant length) (smaller : shorter ≤ length) :
    Settled state participant shorter := by
  rcases settled with rfl | ⟨term, bound, reached, committed, below, held⟩
  · exact .inl (by omega)
  · exact .inr ⟨term, bound, reached, committed, by omega,
      (List.take_prefix_take_left smaller).trans held⟩

omit [DecidableEq ι] in
theorem Sound.chosen_evolves (sound : Sound state) (evolves : Evolves state next) {position : Nat}
    {entry : Entry} (chosen : Chosen state position entry) : Chosen next position entry := by
  obtain ⟨positive, term, length, committed, within, found⟩ := chosen
  have grown := evolves.reign (sound.led_of_committed committed)
  obtain ⟨positive', ⟨last, ends, stamped⟩, holders, majority, acked⟩ := committed
  refine ⟨positive, term, length, ⟨positive', ⟨last, getElem?_of_initial grown ends, stamped⟩,
    holders, majority, ?_⟩, within, getElem?_of_initial grown found⟩
  intro holder member
  exact (acked holder member).trans (evolves.acked term holder)

/-- What is chosen before a term has written as far as some position stands in front of
whatever of that term is chosen there later. -/
theorem Sound.chosen_order {last : State ι Entry} (sound : Sound state) (sound' : Sound last)
    (evolves : Evolves state next) (evolves' : Evolves next last) {position later : Nat}
    {entry entry' : Entry} (chosen : Chosen state position entry)
    (chosen' : Chosen last later entry')
    (unwritten : (next.reign (stamp entry')).length < later) : position < later := by
  by_contra reached
  obtain ⟨_, term, length, committed, within, _⟩ := chosen
  have bounded := committed.bounded
  have positive := chosen'.1
  have found : (state.reign term)[later - 1]? = some ((state.reign term)[later - 1]) :=
    List.getElem?_eq_getElem (by omega)
  have early : Chosen state later _ := ⟨positive, term, length, committed, by omega, found⟩
  -- what was chosen there is the later entry, so its term had written it all along
  have same := sound'.chosen_unique (sound.chosen_evolves (evolves.trans evolves') early) chosen'
  rw [same] at early found
  have coherent := sound.reignCoherent term (sound.led_of_committed committed)
  have written := getElem?_of_initial (evolves.reign (coherent _ _ found).1)
    (sound.chosen_written early)
  have inside := (List.getElem?_eq_some_iff.mp written).1
  omega

variable [DecidableEq Entry] {actor : ι}

theorem Sound.committed_step (sound : Sound state) (step : Step state actor next) {term length : Nat}
    (committed : Committed state term length) : Committed next term length := by
  obtain ⟨positive, ⟨entry, found, stamped⟩, holders, majority, acked⟩ := committed
  refine ⟨positive, ⟨entry, getElem?_of_initial (sound.reign_le step term) found, stamped⟩, holders,
    majority, ?_⟩
  intro holder member
  exact (acked holder member).trans (step.evolves.acked term holder)

theorem Sound.decided_step (sound : Sound state) (step : Step state actor next) {term length : Nat}
    (decided : Decided state term length) : Decided next term length := by
  rcases decided with nothing | ⟨earlier, bound, reached, committed, below⟩
  · exact .inl nothing
  · exact .inr ⟨earlier, bound, reached, sound.committed_step step committed, below⟩

theorem Sound.chosen_step (sound : Sound state) (step : Step state actor next) {position : Nat}
    {entry : Entry} (chosen : Chosen state position entry) : Chosen next position entry := by
  obtain ⟨positive, term, length, committed, within, found⟩ := chosen
  exact ⟨positive, term, length, sound.committed_step step committed, within,
    getElem?_of_initial (sound.reign_le step term) found⟩

/-- No step takes a settled entry out of a log. -/
theorem Sound.settled_step (sound : Sound state) (step : Step state actor next) {participant : ι}
    {length : Nat} (settled : Settled state participant length) :
    Settled next participant length := by
  rcases settled with rfl | ⟨term, bound, reached, committed, below, held⟩
  · exact .inl rfl
  refine .inr ⟨term, bound, reached.trans (step.evolves.term participant),
    sound.committed_step step committed, below, ?_⟩
  rw [sound.take_step step (below.trans committed.bounded)]
  rcases step.log_cases participant with same | ⟨_, entry, _, _, grown, _⟩ |
    ⟨_, _, other, led, adopted⟩
  · rwa [same]
  · rw [grown]
    exact held.trans (List.prefix_append _ _)
  · rw [adopted]
    exact graft_keeps (List.take_prefix _ _) ((List.take_prefix_take_left below).trans
      (sound.committed_reign committed reached led)) held

end RaftGo.Library.Consensus
