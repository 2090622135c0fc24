import RaftGo.Raft.Backoff

/-! A follower that has installed a snapshot over entries which do not belong to it. It
keeps those behind the snapshot, and what it answers about them may lead the leader to an
index before the snapshot, where the follower answers as if its log were too short. The
two then go round in a circle. -/

namespace RaftGo.Raft

variable {ours theirs entries : List LogEntry} {log other : Log} {index : Nat}

/-- A log of which a first part has been replaced by the marker of a snapshot, which need
not be one of that part. -/
structure Log.Overlays (log : Log) (entries : List LogEntry) : Prop where
  within : log.snapshotIndex ≤ entries.length
  same : log = (whole entries).compactTo log.snapshotIndex log.snapshotTerm

namespace Log.Overlays

theorem rest (overlays : log.Overlays entries) : log.rest = entries.drop log.snapshotIndex := by
  rw [overlays.same, rest_compacted, ← overlays.same]

theorem lastIndex (overlays : log.Overlays entries) : log.lastIndex = entries.length := by
  rw [overlays.same, lastIndex_compacted overlays.within]

theorem get (overlays : log.Overlays entries) (above : log.snapshotIndex < index) :
    log.get index = (whole entries).get index := by
  rw [overlays.same]
  exact get_compactTo _ (Nat.zero_lt_of_lt above) above _

theorem compacts (overlays : log.Overlays entries)
    (marked : ((whole entries).get log.snapshotIndex).term = log.snapshotTerm) :
    log.Compacts entries :=
  ⟨overlays.within, by rw [marked]; exact overlays.same⟩

end Log.Overlays

/-- The last index at which the leader has an entry of the term with which the follower's
log goes on behind its marker. -/
def Log.lastShared (log other : Log) : Nat :=
  log.lastIndexForTerm (other.get (other.snapshotIndex + 1)).term log.lastIndex

/-- The logs of leader and follower go on behind the follower's marker, and the leader has
entries of the term with which the follower's goes on, but only before the marker. -/
structure Log.Jams (log other : Log) : Prop where
  behind : other.snapshotIndex < other.lastIndex
  longer : other.snapshotIndex < log.lastIndex
  shared : 0 < log.lastShared other
  early : log.lastShared other < other.snapshotIndex

/-- What a follower may answer when it refuses a request. -/
def Log.Hints (other : Log) (conflictTerm conflictIndex : Nat) : Prop :=
  conflictTerm = 0 ∧ conflictIndex = other.lastIndex + 1 ∨
    ∃ index, other.snapshotIndex < index ∧ index ≤ other.lastIndex ∧
      conflictTerm = (other.get index).term ∧
      conflictIndex = other.firstIndexForTerm conflictTerm

/-- Behind the follower's marker the logs differ, and no answer leads the leader there. -/
structure Log.Misleads (log other : Log) : Prop where
  behind : other.snapshotIndex < other.lastIndex
  reached : log.snapshotIndex ≤ log.lastShared other
  shared : 0 < log.lastShared other
  early : log.lastShared other < other.snapshotIndex
  stamped : ∀ index, other.snapshotIndex < index → index ≤ other.lastIndex →
    (other.get index).term ≠ 0
  differs : ∀ index, other.snapshotIndex < index → index ≤ other.lastIndex →
    (log.get index).term ≠ (other.get index).term
  hint : ∀ index, other.snapshotIndex < index → index ≤ other.lastIndex →
    log.lastIndexForTerm (other.get index).term log.lastIndex = log.lastShared other ∨
      log.lastIndexForTerm (other.get index).term log.lastIndex = 0 ∧
        other.snapshotIndex + 1 < other.firstIndexForTerm (other.get index).term

namespace Log

theorem reached_of_term {term : Nat} (present : term ≠ 0) (found : (log.get index).term = term) :
    log.snapshotIndex ≤ index := by
  by_contra compacted
  rw [get_of_lt _ (Nat.lt_of_not_le compacted)] at found
  exact present found.symm

/-- Logs that come from one log for each term, where the marker of the follower is that of
an entry of the leader. -/
structure Meets (ours theirs : List LogEntry) (log other : Log) : Prop where
  leads : Written ours
  follows : Written theirs
  common : Common ours theirs
  source : log.Compacts ours
  target : other.Overlays theirs
  within : other.snapshotIndex ≤ ours.length
  marker : ((whole ours).get other.snapshotIndex).term = other.snapshotTerm

namespace Meets

theorem stamped (meets : Meets ours theirs log other) (behind : other.snapshotIndex < index)
    (inside : index ≤ other.lastIndex) : (other.get index).term ≠ 0 := by
  rw [meets.target.get behind]
  rw [meets.target.lastIndex] at inside
  exact Nat.one_le_iff_ne_zero.mp
    (meets.follows.get_positive (Nat.zero_lt_of_lt behind) inside)

theorem agree (meets : Meets ours theirs log other) {mine yours : Nat}
    (reached : log.snapshotIndex ≤ mine) (behind : other.snapshotIndex < yours)
    (inside : yours ≤ other.lastIndex) (same : (log.get mine).term = (other.get yours).term)
    (first : index ≤ mine) (second : index ≤ yours) :
    (whole ours).get index = (whole theirs).get index := by
  have present := meets.stamped behind inside
  rw [meets.source.term reached, meets.target.get behind] at same
  rw [meets.target.get behind] at present
  exact meets.common.agree (same ▸ present) same first second

/-- A term with which the follower's log goes on somewhere behind its marker, and which the
leader has only up to the marker, is the one with which it goes on there first. -/
theorem first_term (meets : Meets ours theirs log other) {mine yours : Nat}
    (before : mine ≤ other.snapshotIndex) (behind : other.snapshotIndex < yours)
    (inside : yours ≤ other.lastIndex) (same : (log.get mine).term = (other.get yours).term) :
    (other.get yours).term = (other.get (other.snapshotIndex + 1)).term := by
  have reached := reached_of_term (meets.stamped behind inside) same
  have held := meets.agree reached behind inside same (Nat.le_refl mine) (by omega)
  rw [meets.source.term reached, held, meets.target.get behind] at same
  rw [meets.target.get behind, meets.target.get (show _ < other.snapshotIndex + 1 by omega)]
  rw [meets.target.lastIndex] at inside
  have low := meets.follows.get_le (show mine ≤ other.snapshotIndex + 1 by omega) (by omega)
  have high := meets.follows.get_le (show other.snapshotIndex + 1 ≤ yours by omega) inside
  omega

theorem misleads (meets : Meets ours theirs log other) (jams : log.Jams other) :
    log.Misleads other := by
  obtain ⟨behind, longer, shared, early⟩ := jams
  have next := meets.stamped (Nat.lt_succ_self _) behind
  obtain ⟨none, _⟩ | ⟨_, inside, found, latest⟩ := log.lastIndexForTerm_spec
    (other.get (other.snapshotIndex + 1)).term log.lastIndex
  · exact absurd none (Nat.ne_of_gt shared)
  change (log.get (log.lastShared other)).term = _ at found
  change ∀ later, log.lastShared other < later → _ at latest
  have reached := reached_of_term next found
  -- the leader has none of the follower's terms behind the marker
  have apart {mine yours : Nat} (after : other.snapshotIndex < yours)
      (held : yours ≤ other.lastIndex) (same : (log.get mine).term = (other.get yours).term) :
      mine ≤ other.snapshotIndex := by
    by_contra beyond
    have shares := meets.agree (by omega) after held same
      (show other.snapshotIndex + 1 ≤ mine by omega) after
    refine latest (other.snapshotIndex + 1) (by omega) longer ?_
    rw [meets.source.term (by omega), shares, meets.target.get (Nat.lt_succ_self _)]
  refine ⟨behind, reached, shared, early, fun _ => meets.stamped, ?_, ?_⟩
  · intro index after held same
    exact absurd (apart after held same) (Nat.not_le.mpr after)
  · intro index after held
    rcases log.lastIndexForTerm_spec (other.get index).term log.lastIndex with
      ⟨none, missing⟩ | ⟨_, _, same, _⟩
    · refine .inr ⟨none, ?_⟩
      obtain ⟨low, _, first⟩ := firstIndexForTerm_spec
        (meets.follows.formed meets.target.rest).placed (Nat.le_of_lt after) held
      generalize other.firstIndexForTerm (other.get index).term = start at low first ⊢
      -- neither the marker nor the first entry behind it has the term
      rcases low.eq_or_lt with rfl | above
      · refine absurd ?_ (missing other.snapshotIndex (by omega) (Nat.le_of_lt longer))
        rw [meets.source.term (by omega), meets.marker, ← first, get_snapshotIndex]
        rfl
      · refine lt_of_le_of_ne above ?_
        rintro rfl
        exact missing _ shared inside (found.trans first)
    · refine .inl ?_
      rw [meets.first_term (apart after held same) after held same]
      rfl

end Meets

end Log

section Circle

variable {leader follower : RaftNode}

/-- The node is not going to try the marker of the peer, whose log is `other`. -/
def RaftNode.Astray (other : Log) (peer : String) (node : RaftNode) : Prop :=
  other.snapshotIndex < node.nextIndex.read peer - 1 ∨
    node.nextIndex.read peer - 1 = node.log.lastShared other

/-- The follower refuses what the leader sends. -/
theorem Log.Misleads.refused (misleads : log.Misleads follower.log) (args : AppendEntriesArgs)
    (astray : follower.log.snapshotIndex < args.prevLogIndex ∨
      args.prevLogIndex = log.lastShared follower.log)
    (sent : args.prevLogTerm = (log.get args.prevLogIndex).term) :
    ∃ conflictTerm conflictIndex,
      follower.prevConflict args = some (conflictTerm, conflictIndex) ∧
      follower.log.Hints conflictTerm conflictIndex := by
  have shared := misleads.shared
  have early := misleads.early
  cases checked : follower.prevConflict args with
  | none =>
    have agrees := RaftNode.prevConflict_eq_none.mp checked (by omega)
    rcases astray with beyond | same
    · have inside : args.prevLogIndex ≤ follower.log.lastIndex := by
        by_contra outside
        exact agrees.1 (by rw [get_of_lastIndex_lt _ (Nat.lt_of_not_le outside)])
      exact absurd (agrees.2.trans sent).symm (misleads.differs _ beyond inside)
    · exact absurd (by rw [get_of_lt _ (by omega)]) agrees.1
  | some conflict =>
    obtain ⟨conflictTerm, conflictIndex⟩ := conflict
    refine ⟨conflictTerm, conflictIndex, rfl, ?_⟩
    obtain ⟨_, ⟨_, rfl, rfl⟩ | ⟨present, _, rfl, rfl⟩⟩ := RaftNode.prevConflict_eq_some checked
    · exact .inl ⟨rfl, rfl⟩
    · have low : follower.log.snapshotIndex ≤ args.prevLogIndex := by
        by_contra compacted
        exact present (by rw [get_of_lt _ (Nat.lt_of_not_le compacted)])
      have high : args.prevLogIndex ≤ follower.log.lastIndex := by
        by_contra outside
        exact present (by rw [get_of_lastIndex_lt _ (Nat.lt_of_not_le outside)])
      exact .inr ⟨args.prevLogIndex, by omega, high, rfl, rfl⟩

/-- What the follower answers leads the leader behind the end of the follower's log, to an
entry behind the marker, or to an index the follower has compacted. -/
theorem Log.Misleads.next (misleads : leader.log.Misleads other) (reply : AppendEntriesReply)
    (hints : other.Hints reply.conflictTerm reply.conflictIndex) :
    other.snapshotIndex < max (leader.conflictNext reply) 1 - 1 ∨
      max (leader.conflictNext reply) 1 - 1 = leader.log.lastShared other := by
  have behind := misleads.behind
  rcases hints with ⟨none, last⟩ | ⟨index, after, inside, term, first⟩
  · refine .inl ?_
    rw [RaftNode.conflictNext, if_pos none]
    omega
  · have present := misleads.stamped index after inside
    rw [RaftNode.conflictNext, if_neg (term ▸ present)]
    rw [term] at first
    rcases misleads.hint index after inside with found | ⟨found, beyond⟩
    · refine .inr ?_
      simp only [term, found, if_pos misleads.shared]
      omega
    · refine .inl ?_
      simp only [term, found, Nat.lt_irrefl, ↓reduceIte]
      omega

end Circle

namespace Session

variable {session : Session} {peer : String} {clock : Nat → Nat}

def Astray (session : Session) (peer : String) : Prop :=
  session.leader.Astray session.follower.log peer

theorem Astray.round (astray : session.Astray peer) (live : session.Live)
    (misleads : session.leader.log.Misleads session.follower.log) (now : Nat) :
    (session.round peer now).2 = false ∧ (session.round peer now).1.Live ∧
    (session.round peer now).1.leader.log = session.leader.log ∧
    (session.round peer now).1.follower.log = session.follower.log ∧
    (session.round peer now).1.Astray peer := by
  have reached := misleads.reached
  have shared := misleads.shared
  have early := misleads.early
  have above : session.leader.log.snapshotIndex < session.leader.nextIndex.read peer := by
    rcases astray with beyond | same <;> omega
  obtain ⟨conflictTerm, conflictIndex, conflict, hints⟩ :=
    misleads.refused (session.leader.buildArgsLocked peer) astray rfl
  obtain ⟨live', source, _, next, target⟩ := round_rejected live now above conflict
  refine ⟨?_, live', source, target, ?_⟩
  · rw [round_append live now above]
    exact congrArg (AppendEntriesReply.success ∘ Prod.snd)
      (RaftNode.handleAppendEntries_rejected live.due conflict now)
  · rw [Astray, RaftNode.Astray, source, target, next]
    exact misleads.next _ hints

theorem Astray.rounds (astray : session.Astray peer) (live : session.Live)
    (misleads : session.leader.log.Misleads session.follower.log) (clock : Nat → Nat)
    (count : Nat) :
    (session.rounds peer clock count).Live ∧
    (session.rounds peer clock count).leader.log = session.leader.log ∧
    (session.rounds peer clock count).follower.log = session.follower.log ∧
    (session.rounds peer clock count).Astray peer := by
  induction count with
  | zero => exact ⟨live, rfl, rfl, astray⟩
  | succ count ih =>
    obtain ⟨live', source, target, astray'⟩ := ih
    obtain ⟨_, live'', source', target', astray''⟩ :=
      astray'.round live' (by rw [source, target]; exact misleads) (clock count)
    exact ⟨live'', source'.trans source, target'.trans target, astray''⟩

/-- A session before the first `Success`, with the two logs as they were written. -/
structure Overlaid (ours theirs : List LogEntry) (peer : String) (session : Session) : Prop where
  live : session.Live
  meets : Log.Meets ours theirs session.leader.log session.follower.log
  matched : session.leader.matchIndex.read peer ≤ session.leader.log.snapshotIndex

namespace Overlaid

theorem pending (overlaid : session.Overlaid ours theirs peer)
    (marked : ((Log.whole theirs).get session.follower.log.snapshotIndex).term =
      session.follower.log.snapshotTerm) : session.Pending ours theirs peer := by
  obtain ⟨live, meets, matched⟩ := overlaid
  exact ⟨live, meets.source, meets.target.compacts marked, matched,
    fun _ => ⟨meets.within, meets.marker.trans marked.symm⟩⟩

theorem rejected (overlaid : session.Overlaid ours theirs peer) (now : Nat)
    (above : session.leader.log.snapshotIndex < session.leader.nextIndex.read peer)
    {conflictTerm conflictIndex : Nat}
    (conflict : session.follower.prevConflict (session.leader.buildArgsLocked peer) =
      some (conflictTerm, conflictIndex)) :
    (session.round peer now).1.Overlaid ours theirs peer ∧
    (session.round peer now).1.leader.log = session.leader.log ∧
    (session.round peer now).1.leader.nextIndex.read peer =
      max (session.leader.conflictNext
        { term := session.leader.currentTerm, conflictTerm, conflictIndex }) 1 ∧
    (session.round peer now).1.follower.log = session.follower.log := by
  obtain ⟨live, source, matched, next, target⟩ := round_rejected overlaid.live now above conflict
  refine ⟨⟨live, ?_, ?_⟩, source, next, target⟩
  · rw [source, target]
    exact overlaid.meets
  · rw [matched, source]
    exact overlaid.matched

theorem install (overlaid : session.Overlaid ours theirs peer)
    (covered : session.leader.nextIndex.read peer ≤ session.leader.log.snapshotIndex)
    (less : session.follower.log.snapshotIndex < session.leader.log.snapshotIndex) :
    session.Succeeds peer session.leader.log clock := by
  obtain ⟨live, meets, matched⟩ := overlaid
  exact succeeds_of_install meets.leads meets.follows meets.common live meets.source
    meets.target.rest matched covered less

theorem at_marker (overlaid : session.Overlaid ours theirs peer)
    (start : session.leader.nextIndex.read peer = session.follower.log.snapshotIndex + 1)
    (reached : session.leader.log.snapshotIndex ≤ session.follower.log.snapshotIndex) :
    session.Succeeds peer session.leader.log clock := by
  obtain ⟨live, meets, _⟩ := overlaid
  refine succeeds_of_accepted meets.leads meets.follows meets.common live meets.source
    meets.target.rest (by omega) ?_ (fun index behind before => by omega)
  refine RaftNode.prevConflict_eq_none.mpr fun positive => ?_
  have stands : (session.follower.log.get session.follower.log.snapshotIndex).term =
      (session.leader.log.get session.follower.log.snapshotIndex).term := by
    rw [meets.source.term reached, meets.marker, Log.get_snapshotIndex]
    rfl
  simp only [RaftNode.buildArgsLocked, start, Nat.add_sub_cancel] at positive ⊢
  have present := meets.leads.get_positive positive meets.within
  rw [← meets.source.term reached, ← stands] at present
  exact ⟨Nat.one_le_iff_ne_zero.mp present, stands⟩

/-- The leader has no entry of a term the follower has behind its marker. -/
def Unshared (session : Session) : Prop :=
  ∀ mine yours, session.follower.log.snapshotIndex < yours →
    yours ≤ session.follower.log.lastIndex →
    (session.leader.log.get mine).term ≠ (session.follower.log.get yours).term

/-- Then every rejection leads to an earlier entry behind the marker, or to the marker. -/
theorem descends (overlaid : session.Overlaid ours theirs peer) (unshared : Unshared session)
    (above : session.leader.log.snapshotIndex < session.leader.nextIndex.read peer)
    (low : session.follower.log.snapshotIndex ≤ session.leader.nextIndex.read peer - 1)
    (high : session.leader.nextIndex.read peer - 1 ≤ session.follower.log.lastIndex) :
    session.Succeeds peer session.leader.log clock := by
  induction start : session.leader.nextIndex.read peer - 1 using Nat.strong_induction_on
    generalizing session clock with
  | _ prev ih =>
    have meets := overlaid.meets
    rw [start] at low high
    rcases low.eq_or_lt with here | behind
    · exact overlaid.at_marker (by omega) (by omega)
    have present := meets.stamped behind high
    cases checked : session.follower.prevConflict (session.leader.buildArgsLocked peer) with
    | none =>
      have agrees := RaftNode.prevConflict_eq_none.mp checked
        (show 0 < session.leader.nextIndex.read peer - 1 by omega)
      simp only [RaftNode.buildArgsLocked, start] at agrees
      exact absurd agrees.2.symm (unshared prev prev behind high)
    | some conflict =>
      obtain ⟨conflictTerm, conflictIndex⟩ := conflict
      obtain ⟨overlaid', source, next, target⟩ := overlaid.rejected (clock 0) above checked
      obtain ⟨_, refused⟩ := RaftNode.prevConflict_eq_some checked
      simp only [RaftNode.buildArgsLocked, start] at refused
      rcases refused with ⟨missing, _⟩ | ⟨_, _, rfl, rfl⟩
      · exact absurd missing present
      obtain ⟨from', before, first⟩ := Log.firstIndexForTerm_spec
        (meets.follows.formed meets.target.rest).placed low high
      -- the marker has the term only if the leader has compacted more
      have beyond : session.leader.log.snapshotIndex ≤ session.follower.log.snapshotIndex →
          session.follower.log.snapshotIndex <
            session.follower.log.firstIndexForTerm (session.follower.log.get prev).term := by
        intro reached
        refine lt_of_le_of_ne from' fun same => ?_
        refine unshared session.follower.log.snapshotIndex prev behind high ?_
        rw [meets.source.term reached, meets.marker, ← first, ← same, Log.get_snapshotIndex]
        rfl
      have none : session.leader.log.lastIndexForTerm (session.follower.log.get prev).term
          session.leader.log.lastIndex = 0 := by
        rcases session.leader.log.lastIndexForTerm_spec (session.follower.log.get prev).term
          session.leader.log.lastIndex with ⟨none, _⟩ | ⟨_, _, same, _⟩
        · exact none
        · exact absurd same (unshared _ prev behind high)
      simp only [RaftNode.conflictNext, if_neg present, none, Nat.lt_irrefl, ↓reduceIte] at next
      refine .later ?_
      rw [← source]
      rcases Nat.lt_or_ge session.leader.log.snapshotIndex
        ((session.round peer (clock 0)).1.leader.nextIndex.read peer) with ahead | covered
      · refine ih _ ?_ overlaid' ?_ ?_ ?_ ?_ rfl
        · omega
        · rw [Unshared, source, target]
          exact unshared
        · rwa [source]
        · rw [target]
          omega
        · rw [target]
          omega
      · refine overlaid'.install (by rwa [source]) ?_
        rw [source, target]
        omega

/-- From beyond the end of the follower's log the first rejection leads to its end. -/
theorem descends_from_beyond (overlaid : session.Overlaid ours theirs peer)
    (unshared : Unshared session)
    (behind : session.follower.log.snapshotIndex < session.follower.log.lastIndex)
    (above : session.leader.log.snapshotIndex < session.leader.nextIndex.read peer)
    (beyond : session.follower.log.lastIndex < session.leader.nextIndex.read peer - 1) :
    session.Succeeds peer session.leader.log clock := by
  have missing : (session.follower.log.get (session.leader.nextIndex.read peer - 1)).term = 0 := by
    rw [Log.get_of_lastIndex_lt _ beyond]
  cases checked : session.follower.prevConflict (session.leader.buildArgsLocked peer) with
  | none =>
    exact absurd missing (RaftNode.prevConflict_eq_none.mp checked
      (show 0 < session.leader.nextIndex.read peer - 1 by omega)).1
  | some conflict =>
    obtain ⟨conflictTerm, conflictIndex⟩ := conflict
    obtain ⟨overlaid', source, next, target⟩ := overlaid.rejected (clock 0) above checked
    obtain ⟨_, ⟨_, rfl, rfl⟩ | ⟨present, _⟩⟩ := RaftNode.prevConflict_eq_some checked
    · simp only [RaftNode.conflictNext, ↓reduceIte] at next
      refine .later ?_
      rw [← source]
      rcases Nat.lt_or_ge session.leader.log.snapshotIndex
        ((session.round peer (clock 0)).1.leader.nextIndex.read peer) with ahead | covered
      · refine overlaid'.descends ?_ (by rwa [source]) ?_ ?_
        · rw [Unshared, source, target]
          exact unshared
        · rw [target]
          omega
        · rw [target]
          omega
      · refine overlaid'.install (by rwa [source]) ?_
        rw [source, target]
        omega
    · exact absurd missing present

/-- Entries that do not belong to the snapshot: unless the logs jam, the leader has none of
their terms. -/
theorem unshared (overlaid : session.Overlaid ours theirs peer)
    (foreign : ((Log.whole theirs).get session.follower.log.snapshotIndex).term ≠
      session.follower.log.snapshotTerm)
    (longer : session.follower.log.snapshotIndex < session.leader.log.lastIndex)
    (free : ¬ session.leader.log.Jams session.follower.log) : Unshared session := by
  have meets := overlaid.meets
  -- nothing the leader has from the marker on is of such a term
  have apart {mine yours : Nat} (behind : session.follower.log.snapshotIndex < yours)
      (inside : yours ≤ session.follower.log.lastIndex)
      (same : (session.leader.log.get mine).term = (session.follower.log.get yours).term) :
      mine < session.follower.log.snapshotIndex := by
    by_contra beyond
    have reached := Log.reached_of_term (meets.stamped behind inside) same
    have shares := meets.agree reached behind inside same (Nat.le_of_not_lt beyond)
      (Nat.le_of_lt behind)
    exact foreign (by rw [← shares, meets.marker])
  intro mine yours behind inside same
  have before := apart behind inside same
  have present := meets.stamped behind inside
  have first := meets.first_term (Nat.le_of_lt before) behind inside same
  have held : 0 < mine := by
    by_contra zero
    have bottom := Log.reached_of_term present same
    rw [Nat.eq_zero_of_not_pos zero] at bottom same
    rw [meets.source.term bottom, Log.get_whole_zero] at same
    exact present same.symm
  have next : session.follower.log.snapshotIndex + 1 ≤ session.follower.log.lastIndex := by omega
  refine free ⟨next, longer, ?_, ?_⟩
  · rcases session.leader.log.lastIndexForTerm_spec (session.follower.log.get
      (session.follower.log.snapshotIndex + 1)).term session.leader.log.lastIndex with
      ⟨_, missing⟩ | ⟨positive, _⟩
    · exact absurd (same.trans first) (missing mine held (by omega))
    · exact positive
  · rcases session.leader.log.lastIndexForTerm_spec (session.follower.log.get
      (session.follower.log.snapshotIndex + 1)).term session.leader.log.lastIndex with
      ⟨none, _⟩ | ⟨_, _, found, _⟩
    · rw [Log.lastShared, none]
      omega
    · exact apart (Nat.lt_succ_self _) next found

theorem bare (overlaid : session.Overlaid ours theirs peer)
    (positive : 0 < session.follower.log.snapshotIndex)
    (last : theirs.length = session.follower.log.snapshotIndex) :
    session.Overlaid ours (ours.take session.follower.log.snapshotIndex) peer ∧
      ((Log.whole (ours.take session.follower.log.snapshotIndex)).get
        session.follower.log.snapshotIndex).term = session.follower.log.snapshotTerm := by
  obtain ⟨live, meets, matched⟩ := overlaid
  have length : (ours.take session.follower.log.snapshotIndex).length =
      session.follower.log.snapshotIndex := List.length_take_of_le meets.within
  refine ⟨⟨live, ⟨meets.leads, ⟨meets.leads.placed.take _, ?_, ?_⟩, ⟨fun _ => ours, ?_⟩,
    meets.source, ⟨length.ge, ?_⟩, meets.within, meets.marker⟩, matched⟩, ?_⟩
  · intro entry member
    exact meets.leads.stamped entry (List.mem_of_mem_take member)
  · exact meets.leads.ordered.sublist (List.take_sublist _ _)
  · intro entries member position entry _
    rcases List.mem_pair.mp member with rfl | rfl
    · exact List.take_prefix _ _
    · exact (List.take_prefix _ _).trans (List.take_prefix _ _)
  · refine meets.target.same.trans (Log.compacted_congr positive ?_)
    rw [List.drop_of_length_le last.le, List.drop_of_length_le length.le]
  · rw [← meets.marker, Log.get_whole positive, Log.get_whole positive,
      List.getElem?_take_of_lt (by omega)]

/-- From behind its own end a leader brings the follower up to date, unless the logs jam. -/
theorem succeeds (overlaid : session.Overlaid ours theirs peer)
    (fresh : session.leader.nextIndex.read peer = session.leader.log.lastIndex + 1)
    (free : ¬ session.leader.log.Jams session.follower.log) :
    session.Succeeds peer session.leader.log clock := by
  have meets := overlaid.meets
  have bottom := meets.source.within
  have within := meets.within
  rw [← meets.source.lastIndex] at bottom within
  by_cases marked : ((Log.whole theirs).get session.follower.log.snapshotIndex).term =
      session.follower.log.snapshotTerm
  · exact (overlaid.pending marked).ahead meets.leads meets.follows meets.common (by omega)
  have positive : 0 < session.follower.log.snapshotIndex := by
    by_contra zero
    refine marked ?_
    rw [← meets.marker, Nat.eq_zero_of_not_pos zero, Log.get_whole_zero, Log.get_whole_zero]
  have reach := meets.target.lastIndex
  have size := meets.target.within
  by_cases last : theirs.length = session.follower.log.snapshotIndex
  · obtain ⟨overlaid', marked'⟩ := overlaid.bare positive last
    exact (overlaid'.pending marked').ahead overlaid'.meets.leads overlaid'.meets.follows
      overlaid'.meets.common (by omega)
  by_cases longer : session.follower.log.snapshotIndex < session.leader.log.lastIndex
  · have unshared := overlaid.unshared marked longer free
    by_cases inside : session.leader.log.lastIndex ≤ session.follower.log.lastIndex
    · exact overlaid.descends unshared (by omega) (by omega) (by omega)
    · exact overlaid.descends_from_beyond unshared (by omega) (by omega) (by omega)
  · exact overlaid.at_marker (by omega) (by omega)

end Overlaid

/-- A leader that has just been elected brings a follower up to date, unless the follower
has behind its snapshot an entry of a term that the leader has only before that snapshot,
and the leader has more than the snapshot covers. Then no number of rounds is enough. -/
theorem fresh_backoff_terminates_iff (overlaid : session.Overlaid ours theirs peer)
    (fresh : session.leader.nextIndex.read peer = session.leader.log.lastIndex + 1)
    (clock : Nat → Nat) :
    (∃ count, ((session.rounds peer clock count).round peer (clock count)).2 = true ∧
      ((session.rounds peer clock count).round peer (clock count)).1.Agrees session.leader.log) ↔
      ¬ session.leader.log.Jams session.follower.log := by
  constructor
  · rintro ⟨count, success, _⟩ jams
    have misleads := overlaid.meets.misleads jams
    have astray : session.Astray peer := by
      refine .inl ?_
      rw [fresh]
      exact jams.longer
    obtain ⟨live, source, target, astray'⟩ := astray.rounds overlaid.live misleads clock
      count
    have refused := (astray'.round live (by rw [source, target]; exact misleads) (clock count)).1
    exact Bool.false_ne_true (refused.symm.trans success)
  · exact overlaid.succeeds fresh

/-- The follower had three entries of term 1 when it installed a snapshot of two entries, the
second of them of term 2; the leader has only the first entry of term 1. -/
def misled : Session where
  leader := { RaftNode.replacer [{ term := 2, index := 2 }, { term := 2, index := 3 }] with
    state := .leader
    nextIndex := Table.set (fun _ => none) "node1:7001" 4 }
  follower := { RaftNode.lagging with
    log := ⟨{ term := 2, index := 2 }, [{ term := 1, index := 3 }]⟩ }

theorem misled_overlaid : misled.Overlaid misled.leader.log.rest
    [{ term := 1, index := 1 }, { term := 1, index := 2 }, { term := 1, index := 3 }]
    "node1:7001" where
  live := ⟨rfl, by decide⟩
  meets := {
    leads := ⟨.cons rfl (.cons rfl (.cons rfl .nil)), by decide, by decide⟩
    follows := ⟨.cons rfl (.cons rfl (.cons rfl .nil)), by decide, by decide⟩
    common := by
      refine ⟨fun term => if term = 2 then misled.leader.log.rest else
        [{ term := 1, index := 1 }, { term := 1, index := 2 }, { term := 1, index := 3 }], ?_⟩
      intro entries member position entry found
      rcases List.mem_pair.mp member with rfl | rfl
      all_goals
        rcases position with _ | _ | _ | position
        · cases found
          decide
        · cases found
          decide
        · cases found
          decide
        · cases found
    source := ⟨by decide, rfl⟩
    target := ⟨by decide, rfl⟩
    within := by decide
    marker := rfl }
  matched := by decide

theorem fresh_backoff_circles :
    ¬ ∃ count, ((misled.rounds "node1:7001" id count).round "node1:7001" count).2 = true ∧
      ((misled.rounds "node1:7001" id count).round "node1:7001" count).1.Agrees
        misled.leader.log := by
  intro succeeds
  exact (fresh_backoff_terminates_iff misled_overlaid (by decide) id).mp succeeds
    ⟨by decide, by decide, by decide, by decide⟩

end Session

end RaftGo.Raft
