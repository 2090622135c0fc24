import RaftGo.Raft.Compacted
import RaftGo.Raft.Merge

/-! One leader brings one follower up to date. `nextIndex` does not only fall: a follower
that has compacted the index asked for answers as if its log were too short, and the
leader then tries from behind its end. From there it falls with every rejection, until the
logs meet or a snapshot is due. -/

namespace RaftGo.Raft

variable {ours theirs entries : List LogEntry} {log : Log} {index : Nat}

/-- A log as it was written, before any compaction. -/
structure Written (entries : List LogEntry) : Prop where
  placed : PlacedFrom 1 entries
  stamped : ∀ entry ∈ entries, 1 ≤ entry.term
  ordered : entries.Pairwise fun earlier later => earlier.term ≤ later.term

/-- Of every term there is one log, and up to an entry of the term both logs are a first
part of it: this is what one leader in each term that only appends guarantees. -/
def Common (ours theirs : List LogEntry) : Prop :=
  ∃ origin : Nat → List LogEntry, ∀ entries ∈ [ours, theirs], ∀ position entry,
    entries[position]? = some entry → entries.take (position + 1) <+: origin entry.term

/-- A log of which a first part has been compacted. -/
structure Log.Compacts (log : Log) (entries : List LogEntry) : Prop where
  within : log.snapshotIndex ≤ entries.length
  same : log = (whole entries).compactTo log.snapshotIndex
    ((whole entries).get log.snapshotIndex).term

namespace Written

theorem formed (written : Written entries)
    (rest : log.rest = entries.drop log.snapshotIndex) : log.WellFormed := by
  have behind := written.placed.drop log.snapshotIndex
  rw [Nat.add_comm, ← rest] at behind
  refine ⟨Log.placed_entries behind, ?_⟩
  intro entry member
  rw [rest] at member
  exact written.stamped entry (List.mem_of_mem_drop member)

theorem get_of_mem (written : Written entries) {entry : LogEntry} (member : entry ∈ entries) :
    (Log.whole entries).get entry.index = entry :=
  Log.get_of_mem (written.formed rfl).placed (List.mem_cons_of_mem _ member)

theorem found (written : Written entries) (positive : 0 < index)
    (inside : index ≤ entries.length) :
    entries[index - 1]? = some ((Log.whole entries).get index) ∧
      ((Log.whole entries).get index).index = index := by
  have held : entries[index - 1]? = some ((Log.whole entries).get index) := by
    rw [Log.get_whole positive, List.getElem?_eq_getElem (by omega), Option.getD_some]
  have carried := written.placed _ _ held
  exact ⟨held, by omega⟩

theorem get_positive (written : Written entries) (positive : 0 < index)
    (inside : index ≤ entries.length) : 1 ≤ ((Log.whole entries).get index).term :=
  written.stamped _ (List.mem_of_getElem? (written.found positive inside).1)

theorem get_le (written : Written entries) {earlier later : Nat} (order : earlier ≤ later)
    (inside : later ≤ entries.length) :
    ((Log.whole entries).get earlier).term ≤ ((Log.whole entries).get later).term := by
  rcases Nat.eq_zero_or_pos earlier with rfl | positive
  · rw [Log.get_whole_zero]
    exact Nat.zero_le _
  · rw [Log.get_whole positive, Log.get_whole (by omega),
      List.getElem?_eq_getElem (show earlier - 1 < entries.length by omega),
      List.getElem?_eq_getElem (show later - 1 < entries.length by omega)]
    rcases order.eq_or_lt with rfl | behind
    · exact Nat.le_refl _
    · exact List.pairwise_iff_getElem.mp written.ordered _ _ _ _ (by omega)

end Written

/-- Logs that have entries of one term are the same up to the earlier of them. -/
theorem Common.agree (common : Common ours theirs) {one two : Nat}
    (stamped : ((Log.whole ours).get one).term ≠ 0)
    (same : ((Log.whole ours).get one).term = ((Log.whole theirs).get two).term)
    (first : index ≤ one) (second : index ≤ two) :
    (Log.whole ours).get index = (Log.whole theirs).get index := by
  obtain ⟨origin, share⟩ := common
  obtain ⟨_, mine⟩ := Log.found_of_term stamped
  obtain ⟨_, other⟩ := Log.found_of_term (same ▸ stamped)
  rcases Nat.eq_zero_or_pos index with rfl | positive
  · rfl
  -- the entry in a log whose first part up to a later position is part of the origin
  have read {entries : List LogEntry} {last term : Nat} (inside : last < entries.length)
      (part : entries.take (last + 1) <+: origin term) (before : index - 1 ≤ last) :
      entries[index - 1]? = (origin term)[index - 1]? := by
    obtain ⟨more, whole⟩ := part
    rw [← whole, List.getElem?_append_left (by rw [List.length_take]; omega),
      List.getElem?_take_of_lt (by omega)]
  have left := read (List.getElem?_eq_some_iff.mp mine).1 (share ours (by simp) _ _ mine) (by omega)
  have right := read (List.getElem?_eq_some_iff.mp other).1 (share theirs (by simp) _ _ other)
    (by omega)
  rw [Log.get_whole positive, Log.get_whole positive, left, right, same]

namespace Log.Compacts

theorem lastIndex (compacts : log.Compacts entries) : log.lastIndex = entries.length := by
  rw [compacts.same, lastIndex_compacted compacts.within]

theorem rest (compacts : log.Compacts entries) : log.rest = entries.drop log.snapshotIndex := by
  rw [compacts.same, rest_compacted, ← compacts.same]

theorem get (compacts : log.Compacts entries) (above : log.snapshotIndex < index) :
    log.get index = (whole entries).get index := by
  rw [compacts.same]
  exact get_compactTo _ (Nat.zero_lt_of_lt above) above _

theorem term (compacts : log.Compacts entries) (reached : log.snapshotIndex ≤ index) :
    (log.get index).term = ((whole entries).get index).term := by
  rw [compacts.same]
  exact get_term_compacted reached fun _ => rfl

theorem sent {leader : RaftNode} {peer : String} (compacts : leader.log.Compacts entries)
    (above : leader.log.snapshotIndex < leader.nextIndex.read peer) :
    (leader.buildArgsLocked peer).entries =
      entries.drop (leader.buildArgsLocked peer).prevLogIndex := by
  have position : leader.log.snapshotIndex +
      (leader.nextIndex.read peer - (leader.log.snapshotIndex + 1)) =
        leader.nextIndex.read peer - 1 := by omega
  simp only [RaftNode.buildArgsLocked]
  rw [slice_to_end _ above, compacts.rest, List.drop_drop, position]

end Log.Compacts

/-- A follower whose entries are those it was written with has the leader's entries behind
its marker after the merge, if it had them up to where the request starts. -/
theorem Common.mem_merged (common : Common ours theirs) (leads : Written ours)
    (follows : Written theirs) {after : Log} {start : Nat}
    (rest : log.rest = theirs.drop log.snapshotIndex)
    (merged : log.Merged start (ours.drop start) after)
    (below : ∀ index, log.snapshotIndex < index → index ≤ start →
      log.get index = (Log.whole ours).get index)
    (behind : log.snapshotIndex < index) (inside : index ≤ ours.length) :
    (Log.whole ours).get index ∈ after.rest := by
  have positive := Nat.zero_lt_of_lt behind
  obtain ⟨found, carried⟩ := leads.found positive inside
  have present := leads.get_positive positive inside
  rcases Nat.lt_or_ge start index with beyond | before
  · have placed : PlacedFrom (start + 1) (ours.drop start) := by
      have later := leads.placed.drop start
      rwa [Nat.add_comm] at later
    have member : (Log.whole ours).get index ∈ ours.drop start := by
      refine List.mem_of_getElem? (i := index - 1 - start) ?_
      rw [List.getElem?_drop, ← found]
      congr 1
      omega
    rcases merged.holds placed member (by rwa [carried]) with held | ⟨mine, old, held, here, term⟩
    · exact held
    · rw [rest] at old
      have read := follows.get_of_mem (List.mem_of_mem_drop old)
      rw [here, carried] at read
      have same := common.agree (Nat.one_le_iff_ne_zero.mp present)
        (by rw [read, term]) (Nat.le_refl index) (Nat.le_refl index)
      rwa [same, read]
  · have read := below index behind before
    rw [← read] at carried present ⊢
    rcases log.get_mem_rest behind with old | empty
    · exact merged.kept old ((Nat.le_of_eq carried).trans before)
    · rw [empty] at present
      cases present

namespace Log

theorem firstIndexForTerm_spec (placed : PlacedFrom log.snapshotIndex log.entries)
    (reached : log.snapshotIndex ≤ index) (inside : index ≤ log.lastIndex) :
    log.snapshotIndex ≤ log.firstIndexForTerm (log.get index).term ∧
    log.firstIndexForTerm (log.get index).term ≤ index ∧
    (log.get (log.firstIndexForTerm (log.get index).term)).term = (log.get index).term := by
  have found := get_found reached inside
  cases first : log.entries.find? (fun entry => entry.term = (log.get index).term) with
  | none =>
    have missing := List.find?_eq_none.mp first _ (List.mem_of_getElem? found)
    simp at missing
  | some entry =>
    obtain ⟨same, position, bound, held, before⟩ := List.find?_eq_some_iff_getElem.mp first
    have carried := placed position entry (held ▸ List.getElem?_eq_getElem bound)
    have early : position ≤ index - log.snapshotIndex := by
      by_contra late
      have distinct := before _ (Nat.lt_of_not_le late)
      rw [(List.getElem?_eq_some_iff.mp found).2] at distinct
      simp at distinct
    rw [firstIndexForTerm, first]
    dsimp only
    rw [get_of_mem placed (List.mem_of_find?_eq_some first)]
    exact ⟨by omega, by omega, of_decide_eq_true same⟩

theorem lastIndexForTerm_spec (log : Log) (term bound : Nat) :
    (log.lastIndexForTerm term bound = 0 ∧
      ∀ index, 0 < index → index ≤ bound → (log.get index).term ≠ term) ∨
    (0 < log.lastIndexForTerm term bound ∧ log.lastIndexForTerm term bound ≤ bound ∧
      (log.get (log.lastIndexForTerm term bound)).term = term ∧
      ∀ index, log.lastIndexForTerm term bound < index → index ≤ bound →
        (log.get index).term ≠ term) := by
  induction bound with
  | zero => exact .inl ⟨rfl, fun index positive inside => absurd positive (by omega)⟩
  | succ bound ih =>
    rw [lastIndexForTerm]
    split
    · rename_i here
      exact .inr ⟨Nat.succ_pos _, Nat.le_refl _, here, fun index behind inside => by omega⟩
    · rename_i other
      rcases ih with ⟨none, missing⟩ | ⟨positive, inside, found, last⟩
      · refine .inl ⟨none, fun index positive inside => ?_⟩
        rcases inside.eq_or_lt with rfl | below
        · exact other
        · exact missing index positive (Nat.le_of_lt_succ below)
      · refine .inr ⟨positive, by omega, found, fun index behind inside => ?_⟩
        rcases inside.eq_or_lt with rfl | below
        · exact other
        · exact last index behind (Nat.le_of_lt_succ below)

end Log

/-- A leader and the peer it replicates to. -/
structure Session where
  leader : RaftNode
  follower : RaftNode

namespace Session

/-- One RPC with its reply, and whether it was answered with `Success`. Snapshots can be
saved. -/
def round (session : Session) (peer : String) (now : Nat) : Session × Bool :=
  match session.leader.replicateTo peer with
  | .install _ term args =>
    let (follower, reply) := session.follower.handleInstallSnapshot args true
    (⟨session.leader.handleInstallReply peer term args reply, follower⟩, false)
  | .append _ term args =>
    let (follower, reply) := session.follower.handleAppendEntries now args
    (⟨session.leader.handleAppendReply now peer term args reply, follower⟩, reply.success)

/-- The session after a number of rounds, each at its time on the clock. -/
def rounds (session : Session) (peer : String) (clock : Nat → Nat) : Nat → Session
  | 0 => session
  | count + 1 => ((session.rounds peer clock count).round peer (clock count)).1

theorem rounds_succ (session : Session) (peer : String) (clock : Nat → Nat) (count : Nat) :
    session.rounds peer clock (count + 1) =
      (session.round peer (clock 0)).1.rounds peer (fun k => clock (k + 1)) count := by
  induction count with
  | zero => rfl
  | succ count ih => exact congrArg (fun session => (session.round peer (clock (count + 1))).1) ih

/-- The follower has what the leader has, where neither has compacted it. -/
def Agrees (session : Session) (log : Log) : Prop :=
  ∀ index, log.snapshotIndex < index → session.follower.log.snapshotIndex < index →
    index ≤ log.lastIndex → session.follower.log.get index = log.get index

/-- Some round is answered with `Success`, and then the logs agree. -/
def Succeeds (session : Session) (peer : String) (log : Log) (clock : Nat → Nat) : Prop :=
  ∃ count, ((session.rounds peer clock count).round peer (clock count)).2 = true ∧
    ((session.rounds peer clock count).round peer (clock count)).1.Agrees log

section Rounds

variable {session : Session} {peer : String} {clock : Nat → Nat}

theorem Succeeds.later
    (succeeds : (session.round peer (clock 0)).1.Succeeds peer log fun k => clock (k + 1)) :
    session.Succeeds peer log clock := by
  obtain ⟨count, success, agrees⟩ := succeeds
  rw [← rounds_succ] at success agrees
  exact ⟨count + 1, success, agrees⟩

/-- The leader leads, and the follower is in no later term. -/
structure Live (session : Session) : Prop where
  leads : session.leader.state = .leader
  due : session.follower.currentTerm ≤ session.leader.currentTerm

theorem round_install (live : session.Live) (now : Nat)
    (covered : session.leader.nextIndex.read peer ≤ session.leader.log.snapshotIndex) :
    (session.round peer now).1.Live ∧
    (session.round peer now).1.leader.log = session.leader.log ∧
    (session.round peer now).1.leader.matchIndex.read peer =
      max (session.leader.matchIndex.read peer) session.leader.log.snapshotIndex ∧
    (session.round peer now).1.leader.nextIndex.read peer =
      max (session.leader.matchIndex.read peer) session.leader.log.snapshotIndex + 1 ∧
    (session.round peer now).1.follower.log = session.follower.log.compactTo
      session.leader.log.snapshotIndex session.leader.log.snapshotTerm := by
  obtain ⟨leader, follower⟩ := session
  obtain ⟨leads, due⟩ := live
  have sent : leader.replicateTo peer =
      .install peer leader.currentTerm leader.buildSnapshotArgsLocked := if_pos covered
  have reply : (follower.handleInstallSnapshot leader.buildSnapshotArgsLocked true).2.term =
      leader.currentTerm := by
    rw [RaftNode.term_handleInstallSnapshot]
    exact Nat.max_eq_right due
  have recorded : leader.handleInstallReply peer leader.currentTerm leader.buildSnapshotArgsLocked
      (follower.handleInstallSnapshot leader.buildSnapshotArgsLocked true).2 =
        leader.advanceMatch peer leader.log.snapshotIndex := by
    rw [RaftNode.handleInstallReply, reply, if_neg (Nat.lt_irrefl _),
      if_neg (not_or.mpr ⟨not_not.mpr leads, not_not.mpr rfl⟩)]
    rfl
  have reached : (follower.handleInstallSnapshot leader.buildSnapshotArgsLocked true).1.currentTerm =
      leader.currentTerm := by
    rw [RaftNode.currentTerm_handleInstallSnapshot]
    exact Nat.max_eq_right due
  have known := leader.read_advanceMatch peer leader.log.snapshotIndex peer
  rw [if_pos rfl, if_pos rfl] at known
  obtain ⟨nextIndex, matchIndex, advanced⟩ := leader.advanceMatch_eq peer leader.log.snapshotIndex
  simp only [round, sent, recorded]
  refine ⟨⟨?_, ?_⟩, ?_, known.1, known.2, RaftNode.log_handleInstallSnapshot due⟩
  · rw [advanced]
    exact leads
  · rw [advanced]
    exact Nat.le_of_eq reached
  · rw [advanced]

theorem round_append (live : session.Live) (now : Nat)
    (above : session.leader.log.snapshotIndex < session.leader.nextIndex.read peer) :
    session.round peer now =
      (⟨session.leader.recordReply now peer (session.leader.buildArgsLocked peer)
          (session.follower.handleAppendEntries now (session.leader.buildArgsLocked peer)).2,
        (session.follower.handleAppendEntries now (session.leader.buildArgsLocked peer)).1⟩,
      (session.follower.handleAppendEntries now (session.leader.buildArgsLocked peer)).2.success) := by
  obtain ⟨leader, follower⟩ := session
  obtain ⟨leads, due⟩ := live
  have sent : leader.replicateTo peer =
      .append peer leader.currentTerm (leader.buildArgsLocked peer) :=
    if_neg (Nat.not_le.mpr above)
  have reply : (follower.handleAppendEntries now (leader.buildArgsLocked peer)).2.term =
      leader.currentTerm := by
    cases checked : follower.prevConflict (leader.buildArgsLocked peer) with
    | none => rw [RaftNode.handleAppendEntries_accepted due checked]; rfl
    | some conflict => rw [RaftNode.handleAppendEntries_rejected due checked]; rfl
  have recorded : leader.handleAppendReply now peer leader.currentTerm
      (leader.buildArgsLocked peer)
      (follower.handleAppendEntries now (leader.buildArgsLocked peer)).2 =
        leader.recordReply now peer (leader.buildArgsLocked peer)
          (follower.handleAppendEntries now (leader.buildArgsLocked peer)).2 := by
    rw [RaftNode.handleAppendReply, reply, if_neg (Nat.lt_irrefl _),
      if_neg (not_or.mpr ⟨not_not.mpr leads, not_not.mpr rfl⟩)]
  simp only [round, sent, recorded]

theorem round_rejected (live : session.Live) (now : Nat)
    (above : session.leader.log.snapshotIndex < session.leader.nextIndex.read peer)
    {conflictTerm conflictIndex : Nat}
    (conflict : session.follower.prevConflict (session.leader.buildArgsLocked peer) =
      some (conflictTerm, conflictIndex)) :
    (session.round peer now).1.Live ∧
    (session.round peer now).1.leader.log = session.leader.log ∧
    (session.round peer now).1.leader.matchIndex = session.leader.matchIndex ∧
    (session.round peer now).1.leader.nextIndex.read peer =
      max (session.leader.conflictNext
        { term := session.leader.currentTerm, conflictTerm, conflictIndex }) 1 ∧
    (session.round peer now).1.follower.log = session.follower.log := by
  have due : session.follower.currentTerm ≤ (session.leader.buildArgsLocked peer).term := live.due
  have reached := RaftNode.currentTerm_observeLeader due
  rw [round_append live now above, RaftNode.handleAppendEntries_rejected due conflict]
  refine ⟨⟨live.leads, Nat.le_of_eq reached⟩, rfl, rfl, ?_, session.follower.log_observeLeader _⟩
  rw [RaftNode.recordReply]
  simp only [Bool.false_eq_true, ↓reduceIte, Table.read_set]
  rfl

end Rounds

/-- A session before the first `Success`, with the two logs as they were written. Where the
follower has compacted more than the leader, it has compacted entries of the leader. -/
structure Pending (ours theirs : List LogEntry) (peer : String) (session : Session) : Prop where
  live : session.Live
  source : session.leader.log.Compacts ours
  target : session.follower.log.Compacts theirs
  matched : session.leader.matchIndex.read peer ≤ session.leader.log.snapshotIndex
  boundary : session.leader.log.snapshotIndex ≤ session.follower.log.snapshotIndex →
    session.follower.log.snapshotIndex ≤ ours.length ∧
      ((Log.whole ours).get session.follower.log.snapshotIndex).term =
        ((Log.whole theirs).get session.follower.log.snapshotIndex).term

section Backoff

variable {session : Session} {peer : String} {clock : Nat → Nat}

/-- A follower whose entries are those it was written with has the leader's log after
accepting a request, if it had it up to where the request starts. -/
theorem succeeds_of_accepted (leads : Written ours) (follows : Written theirs)
    (common : Common ours theirs) (live : session.Live)
    (source : session.leader.log.Compacts ours)
    (rest : session.follower.log.rest = theirs.drop session.follower.log.snapshotIndex)
    (above : session.leader.log.snapshotIndex < session.leader.nextIndex.read peer)
    (agrees : session.follower.prevConflict (session.leader.buildArgsLocked peer) = none)
    (below : ∀ index, session.follower.log.snapshotIndex < index →
      index ≤ session.leader.nextIndex.read peer - 1 →
      session.follower.log.get index = (Log.whole ours).get index) :
    session.Succeeds peer session.leader.log clock := by
  have due : session.follower.currentTerm ≤ (session.leader.buildArgsLocked peer).term := live.due
  have formed := follows.formed rest
  have sent := source.sent above
  have placed : PlacedFrom ((session.leader.buildArgsLocked peer).prevLogIndex + 1)
      (session.leader.buildArgsLocked peer).entries := by
    have behind := leads.placed.drop (session.leader.buildArgsLocked peer).prevLogIndex
    rwa [Nat.add_comm, ← sent] at behind
  have stamped : ∀ entry ∈ (session.leader.buildArgsLocked peer).entries, 1 ≤ entry.term := by
    intro entry member
    rw [sent] at member
    exact leads.stamped entry (List.mem_of_mem_drop member)
  have merged := RaftNode.merged_handleAppendEntries formed placed due agrees (clock 0)
  have formed' := merged.wellFormed formed placed stamped
  refine ⟨0, ?_, ?_⟩
  · rw [rounds, round_append live _ above]
    exact (RaftNode.success_handleAppendEntries due _).mpr agrees
  · rw [rounds, round_append live _ above]
    intro index behind held_behind inside
    replace held_behind : session.follower.log.snapshotIndex < index := by
      rw [← merged.snapshotIndex_eq]
      exact held_behind
    rw [source.lastIndex] at inside
    rw [sent] at merged
    have held := common.mem_merged leads follows rest merged below held_behind inside
    have read := Log.get_of_mem formed'.placed (List.mem_cons_of_mem _ held)
    rwa [(leads.found (Nat.zero_lt_of_lt behind) inside).2, ← source.get behind] at read

theorem succeeds_of_install (leads : Written ours) (follows : Written theirs)
    (common : Common ours theirs) (live : session.Live)
    (source : session.leader.log.Compacts ours)
    (rest : session.follower.log.rest = theirs.drop session.follower.log.snapshotIndex)
    (matched : session.leader.matchIndex.read peer ≤ session.leader.log.snapshotIndex)
    (covered : session.leader.nextIndex.read peer ≤ session.leader.log.snapshotIndex)
    (less : session.follower.log.snapshotIndex < session.leader.log.snapshotIndex) :
    session.Succeeds peer session.leader.log clock := by
  obtain ⟨live', log, _, next, target⟩ := round_install live (clock 0) covered
  rw [Nat.max_eq_right matched] at next
  rw [Log.compactTo_of_lt _ less, rest, List.drop_drop,
    Nat.add_sub_of_le (Nat.le_of_lt less)] at target
  have marker : (session.round peer (clock 0)).1.follower.log.snapshotIndex =
      session.leader.log.snapshotIndex := by
    rw [target]
    rfl
  refine .later ?_
  rw [← log]
  refine succeeds_of_accepted leads follows common live' (log ▸ source) ?_ ?_ ?_ ?_
  · rw [marker, target]
  · rw [log, next]
    exact Nat.lt_succ_self _
  · refine RaftNode.prevConflict_eq_none.mpr fun _ => ?_
    have stands : ((session.round peer (clock 0)).1.follower.log.get
        session.leader.log.snapshotIndex).term = session.leader.log.snapshotTerm := by
      rw [← marker, Log.get_snapshotIndex, target]
    have present := leads.get_positive (Nat.zero_lt_of_lt less) source.within
    rw [← source.term (Nat.le_refl _), Log.get_snapshotIndex] at present
    simp only [RaftNode.buildArgsLocked, next, Nat.add_sub_cancel, log, stands,
      Log.get_snapshotIndex]
    exact ⟨Nat.one_le_iff_ne_zero.mp present, rfl⟩
  · intro index behind before
    rw [marker] at behind
    rw [next] at before
    omega

namespace Pending

theorem install (leads : Written ours) (follows : Written theirs) (common : Common ours theirs)
    (pending : session.Pending ours theirs peer)
    (covered : session.leader.nextIndex.read peer ≤ session.leader.log.snapshotIndex)
    (less : session.follower.log.snapshotIndex < session.leader.log.snapshotIndex) :
    session.Succeeds peer session.leader.log clock :=
  succeeds_of_install leads follows common pending.live pending.source pending.target.rest
    pending.matched covered less

theorem rejected (pending : session.Pending ours theirs peer) (now : Nat)
    (above : session.leader.log.snapshotIndex < session.leader.nextIndex.read peer)
    {conflictTerm conflictIndex : Nat}
    (conflict : session.follower.prevConflict (session.leader.buildArgsLocked peer) =
      some (conflictTerm, conflictIndex)) :
    (session.round peer now).1.Pending ours theirs peer ∧
    (session.round peer now).1.leader.log = session.leader.log ∧
    (session.round peer now).1.leader.nextIndex.read peer =
      max (session.leader.conflictNext
        { term := session.leader.currentTerm, conflictTerm, conflictIndex }) 1 ∧
    (session.round peer now).1.follower.log = session.follower.log := by
  obtain ⟨live, source, matched, next, target⟩ := round_rejected pending.live now above conflict
  refine ⟨⟨live, source ▸ pending.source, target ▸ pending.target, ?_, ?_⟩, source, next, target⟩
  · rw [matched, source]
    exact pending.matched
  · rw [source, target]
    exact pending.boundary

theorem accepted (leads : Written ours) (follows : Written theirs) (common : Common ours theirs)
    (pending : session.Pending ours theirs peer)
    (above : session.leader.log.snapshotIndex < session.leader.nextIndex.read peer)
    (agrees : session.follower.prevConflict (session.leader.buildArgsLocked peer) = none) :
    session.Succeeds peer session.leader.log clock := by
  refine succeeds_of_accepted leads follows common pending.live pending.source
    pending.target.rest above agrees ?_
  intro index behind before
  obtain ⟨present, same⟩ := RaftNode.prevConflict_eq_none.mp agrees
    (show 0 < session.leader.nextIndex.read peer - 1 by omega)
  simp only [RaftNode.buildArgsLocked] at present same
  rw [pending.target.term (by omega)] at present same
  rw [pending.source.term (by omega)] at same
  rw [pending.target.get behind]
  exact (common.agree (same ▸ present) same.symm before before).symm

section Conflict

variable {last : Nat}

/-- The leader has entries of the term the follower has at the index refused: the last of
them comes before that index, and neither has compacted it. -/
theorem last_of_term (leads : Written ours) (follows : Written theirs)
    (common : Common ours theirs) (pending : session.Pending ours theirs peer)
    (above : session.leader.log.snapshotIndex ≤ index)
    (low : session.follower.log.snapshotIndex ≤ index) (high : index ≤ theirs.length)
    (present : (session.follower.log.get index).term ≠ 0)
    (differs : (session.follower.log.get index).term ≠ (session.leader.log.get index).term)
    (found : (session.leader.log.get last).term = (session.follower.log.get index).term)
    (latest : ∀ later, last < later → later ≤ session.leader.log.lastIndex →
      (session.leader.log.get later).term ≠ (session.follower.log.get index).term) :
    session.leader.log.snapshotIndex ≤ last ∧ session.follower.log.snapshotIndex ≤ last ∧
      last < index := by
  have reached : session.leader.log.snapshotIndex ≤ last := by
    by_contra compacted
    rw [Log.get_of_lt _ (Nat.lt_of_not_le compacted)] at found
    exact present found.symm
  rw [pending.source.lastIndex] at latest
  rw [pending.target.term low] at present differs found latest
  rw [pending.source.term above] at differs
  rw [pending.source.term reached] at found
  refine ⟨reached, ?_, ?_⟩
  · -- otherwise the boundary of the follower is a later entry of the term
    by_contra compacted
    have before := Nat.lt_of_not_le compacted
    have beyond : session.leader.log.snapshotIndex ≤ session.follower.log.snapshotIndex := by omega
    obtain ⟨within, same⟩ := pending.boundary beyond
    have ours_rise := leads.get_le (Nat.le_of_lt before) within
    have theirs_rise := follows.get_le low high
    refine latest _ before within ?_
    rw [pending.source.term beyond]
    omega
  · -- otherwise the logs are the same at the index
    by_contra behind
    have same := common.agree (found ▸ present) found (Nat.le_of_not_lt behind) (Nat.le_refl index)
    exact differs (congrArg LogEntry.term same).symm

/-- The leader has no entries of that term: the first one the follower has is not its
boundary, unless the leader has compacted more. -/
theorem first_of_term (follows : Written theirs) (pending : session.Pending ours theirs peer)
    (low : session.follower.log.snapshotIndex ≤ index) (high : index ≤ theirs.length)
    (present : (session.follower.log.get index).term ≠ 0)
    (missing : ∀ other, 0 < other → other ≤ session.leader.log.lastIndex →
      (session.leader.log.get other).term ≠ (session.follower.log.get index).term) :
    0 < session.follower.log.firstIndexForTerm (session.follower.log.get index).term ∧
    session.follower.log.firstIndexForTerm (session.follower.log.get index).term ≤ index ∧
    (session.leader.log.snapshotIndex ≤ session.follower.log.snapshotIndex →
      session.follower.log.snapshotIndex <
        session.follower.log.firstIndexForTerm (session.follower.log.get index).term) := by
  obtain ⟨behind, before, same⟩ := Log.firstIndexForTerm_spec
    (follows.formed pending.target.rest).placed low (pending.target.lastIndex ▸ high)
  generalize session.follower.log.firstIndexForTerm (session.follower.log.get index).term = first
    at behind before same
  have positive : 0 < first := by
    by_contra zero
    rw [pending.target.term behind, Nat.eq_zero_of_not_pos zero] at same
    exact present same.symm
  refine ⟨positive, before, fun beyond => lt_of_le_of_ne behind ?_⟩
  rintro rfl
  obtain ⟨within, shared⟩ := pending.boundary beyond
  refine missing _ positive (pending.source.lastIndex ▸ within) ?_
  rw [pending.source.term beyond, shared, ← pending.target.term (Nat.le_refl _), same]

end Conflict

/-- From an index within the follower's log every rejection leads to an earlier one. -/
theorem aligned (leads : Written ours) (follows : Written theirs) (common : Common ours theirs)
    (pending : session.Pending ours theirs peer)
    (above : session.leader.log.snapshotIndex < session.leader.nextIndex.read peer)
    (low : session.follower.log.snapshotIndex ≤ session.leader.nextIndex.read peer - 1)
    (high : session.leader.nextIndex.read peer - 1 ≤ theirs.length) :
    session.Succeeds peer session.leader.log clock := by
  induction start : session.leader.nextIndex.read peer - 1 using Nat.strong_induction_on
    generalizing session clock with
  | _ prev ih =>
    cases checked : session.follower.prevConflict (session.leader.buildArgsLocked peer) with
    | none => exact pending.accepted leads follows common above checked
    | some conflict =>
      obtain ⟨conflictTerm, conflictIndex⟩ := conflict
      obtain ⟨pending', source, next, target⟩ := pending.rejected (clock 0) above checked
      obtain ⟨positive, refused⟩ := RaftNode.prevConflict_eq_some checked
      simp only [RaftNode.buildArgsLocked] at positive refused
      rw [start] at positive refused low high
      rcases refused with ⟨missing, _⟩ | ⟨present, differs, rfl, rfl⟩
      · rw [pending.target.term low] at missing
        have held := follows.get_positive positive high
        omega
      · refine .later ?_
        rw [← source]
        simp only [RaftNode.conflictNext, if_neg present] at next
        rcases session.leader.log.lastIndexForTerm_spec
          (session.follower.log.get prev).term session.leader.log.lastIndex with
          ⟨none, missing⟩ | ⟨found, _, same, latest⟩
        · obtain ⟨first, before, beyond⟩ := pending.first_of_term follows low high present missing
          rw [none, if_neg (Nat.lt_irrefl 0), Nat.max_eq_left first] at next
          rcases Nat.lt_or_ge (session.leader.log.snapshotIndex)
            ((session.round peer (clock 0)).1.leader.nextIndex.read peer) with ahead | covered
          · refine ih _ ?_ pending' (by rwa [source]) ?_ ?_ rfl
            · omega
            · rw [target]
              omega
            · omega
          · refine pending'.install leads follows common (by rwa [source]) ?_
            rw [source, target]
            omega
        · obtain ⟨reached, low', before⟩ := pending.last_of_term leads follows common (by omega) low
            high present differs same latest
          rw [if_pos found, Nat.max_eq_left (Nat.succ_pos _)] at next
          refine ih _ ?_ pending' ?_ ?_ ?_ rfl
          · omega
          · rw [source]
            omega
          · rw [target]
            omega
          · omega

/-- From an index outside the follower's log the first rejection leads to its end. -/
theorem ahead (leads : Written ours) (follows : Written theirs) (common : Common ours theirs)
    (pending : session.Pending ours theirs peer)
    (above : session.leader.log.snapshotIndex < session.leader.nextIndex.read peer) :
    session.Succeeds peer session.leader.log clock := by
  have reach := pending.target.lastIndex
  have within := pending.target.within
  by_cases inside : session.follower.log.snapshotIndex ≤ session.leader.nextIndex.read peer - 1 ∧
      session.leader.nextIndex.read peer - 1 ≤ theirs.length
  · exact pending.aligned leads follows common above inside.1 inside.2
  · cases checked : session.follower.prevConflict (session.leader.buildArgsLocked peer) with
    | none => exact pending.accepted leads follows common above checked
    | some conflict =>
      obtain ⟨conflictTerm, conflictIndex⟩ := conflict
      obtain ⟨pending', source, next, target⟩ := pending.rejected (clock 0) above checked
      obtain ⟨_, ⟨_, rfl, rfl⟩ | ⟨present, _⟩⟩ := RaftNode.prevConflict_eq_some checked
      · refine .later ?_
        rw [← source]
        simp only [RaftNode.conflictNext, ↓reduceIte] at next
        rw [reach, Nat.max_eq_left (Nat.succ_pos _)] at next
        rcases Nat.lt_or_ge session.leader.log.snapshotIndex
          ((session.round peer (clock 0)).1.leader.nextIndex.read peer) with ahead | covered
        · refine pending'.aligned leads follows common (by rwa [source]) ?_ ?_
          · rw [target]
            omega
          · omega
        · refine pending'.install leads follows common (by rwa [source]) ?_
          rw [source, target]
          omega
      · refine absurd ?_ present
        simp only [RaftNode.buildArgsLocked]
        rcases not_and_or.mp inside with before | beyond
        · rw [Log.get_of_lt _ (Nat.lt_of_not_le before)]
        · rw [Log.get_of_lastIndex_lt _ (reach ▸ Nat.lt_of_not_le beyond)]

end Pending

/-- Conflict backoff terminates. Let leader and follower have logs that come from one log
for each term, perhaps compacted, where the follower has compacted no more than entries of
the leader. Then, from any `nextIndex`, some round is answered with `Success`, and after it
the follower has the leader's log. -/
theorem backoff_terminates (leads : Written ours) (follows : Written theirs)
    (common : Common ours theirs) (source : session.leader.log.Compacts ours)
    (target : session.follower.log.Compacts theirs)
    (boundary : session.leader.log.snapshotIndex ≤ session.follower.log.snapshotIndex →
      session.follower.log.snapshotIndex ≤ session.leader.log.lastIndex ∧
        (session.leader.log.get session.follower.log.snapshotIndex).term =
          session.follower.log.snapshotTerm)
    (state : session.leader.state = .leader)
    (due : session.follower.currentTerm ≤ session.leader.currentTerm)
    (fresh : session.leader.matchIndex.read peer = 0) (clock : Nat → Nat) :
    ∃ count, ((session.rounds peer clock count).round peer (clock count)).2 = true ∧
      ((session.rounds peer clock count).round peer (clock count)).1.Agrees session.leader.log := by
  have pending : session.Pending ours theirs peer := by
    refine ⟨⟨state, due⟩, source, target, fresh ▸ Nat.zero_le _, fun beyond => ?_⟩
    obtain ⟨inside, same⟩ := boundary beyond
    refine ⟨source.lastIndex ▸ inside, ?_⟩
    rw [← source.term beyond, same, ← target.term (Nat.le_refl _), Log.get_snapshotIndex]
    rfl
  rcases Nat.lt_or_ge session.leader.log.snapshotIndex (session.leader.nextIndex.read peer) with
    above | covered
  · exact pending.ahead leads follows common above
  · rcases Nat.lt_or_ge session.follower.log.snapshotIndex session.leader.log.snapshotIndex with
      less | more
    · exact pending.install leads follows common covered less
    · -- the follower ignores the snapshot, the leader goes on from its marker
      obtain ⟨live, log, matched, next, kept⟩ := round_install pending.live (clock 0) covered
      rw [Log.compactTo_of_le _ more] at kept
      rw [fresh, Nat.zero_max] at matched next
      refine Succeeds.later ?_
      rw [← log]
      refine Pending.ahead leads follows common ⟨live, ?_, ?_, ?_, ?_⟩ ?_
      · rwa [log]
      · rwa [kept]
      · rw [matched, log]
      · rw [log, kept]
        exact pending.boundary
      · rw [log, next]
        exact Nat.lt_succ_self _

/-- The leader that sends `replacing`, when it starts from behind its own end. -/
def restarted : Session where
  leader := { RaftNode.replacer RaftNode.replacing.entries with
    state := .leader
    nextIndex := Table.set (fun _ => none) "node1:7001" 3 }
  follower := RaftNode.lagging

theorem backoff_terminates_restarted : ∃ count,
    ((restarted.rounds "node1:7001" id count).round "node1:7001" count).2 = true ∧
    ((restarted.rounds "node1:7001" id count).round "node1:7001" count).1.Agrees
      restarted.leader.log := by
  have common : Common restarted.leader.log.rest restarted.follower.log.rest := by
    refine ⟨fun term => if term = 2 then restarted.leader.log.rest
      else restarted.follower.log.rest, ?_⟩
    intro entries member position entry found
    rcases List.mem_pair.mp member with rfl | rfl
    all_goals
      rcases position with _ | _ | position
      · cases found
        decide
      · cases found
        decide
      · cases found
  exact backoff_terminates ⟨.cons rfl (.cons rfl .nil), by decide, by decide⟩
    ⟨.cons rfl (.cons rfl .nil), by decide, by decide⟩ common ⟨by decide, rfl⟩ ⟨by decide, rfl⟩
    (by decide) rfl (by decide) rfl id

end Backoff

end Session

end RaftGo.Raft
