import RaftGo.Cluster.Compaction

/-! Elections among nodes that compact. Whatever leaves the log alone a node does
together with its counterpart; the two answer a vote request alike, because the marker
of a compacted log carries the index and the term of the entry it stands for. -/

namespace RaftGo

open Raft KvStore Library Library.Consensus

variable {ι : Type} [Fintype ι] [DecidableEq ι] {deployment : Deployment ι} {archive : Archive ι}
  {next : Consensus.State ι LogEntry} {i : ι} {elections remaining : Nat} {node after : RaftNode}

theorem Contract.Path.archived (path : (consensusContract deployment).Path i archive.history next) :
    (condensedContract deployment).Path i archive { archive with history := next } := by
  induction path with
  | refl => exact .refl
  | tail before moved ih => exact ih.tail (.write moved)

theorem Archive.Reached.path {term index : Nat} {j : ι} (reached : archive.Reached term j index)
    (sound : Consensus.Sound archive.history)
    (path : (consensusContract deployment).Path i archive.history next) :
    Archive.Reached { archive with history := next } term j index :=
  path.archived.keeps (fun archive => archive.Reached term j index) sound
    (fun sound moved reached => reached.moves sound moved) reached

theorem Compaction.rests (compaction : Compaction archive i node)
    (sound : Consensus.Sound archive.history)
    (path : (consensusContract deployment).Path i archive.history next)
    (same : next.log i = archive.history.log i) (rests : node.Rests after)
    (later : node.currentTerm ≤ after.currentTerm) :
    Compaction { archive with history := next } i after := by
  obtain ⟨log, commitIndex, lastApplied⟩ := rests
  refine ⟨?_, ?_, ?_, ?_, ?_, ?_, ?_, ?_⟩
  · rw [log]
    exact compaction.covered
  · rw [log, same]
    exact compaction.log
  · rw [log, same]
    exact compaction.within
  · rw [log]
    exact path.decided sound (compaction.decided.mono later (Nat.le_refl _))
  · rw [log]
    intro positive
    obtain ⟨entry, chosen, stamped⟩ := compaction.marker positive
    exact ⟨entry, path.chosen sound chosen, stamped⟩
  · rw [log, lastApplied]
    exact compaction.bottom
  · rw [lastApplied, commitIndex]
    exact compaction.applied
  · rw [log, commitIndex, same]
    exact compaction.committed.imp_left (path.settled sound)

/-- Whoever leads afterwards led before, in the same term and with the same view of its
peers. -/
def Raft.RaftNode.Tracks (node after : RaftNode) : Prop :=
  after.state = .leader → node.state = .leader ∧ after.currentTerm = node.currentTerm ∧
    after.matchIndex = node.matchIndex

theorem Raft.RaftNode.tracks_stepDown (node : RaftNode) (term : Nat) :
    node.Tracks (node.stepDown term) := by
  intro leads
  rcases node.stepDown_cases term with ⟨_, same⟩ | ⟨_, stepped⟩
  · rw [same] at leads ⊢
    exact ⟨leads, rfl, rfl⟩
  · rw [stepped] at leads
    cases leads

theorem Raft.RaftNode.tracks_observeLeader (node : RaftNode) (term : Nat) :
    node.Tracks (node.observeLeader term) := by
  rcases node.observeLeader_cases term with same | ⟨_, _, conceded⟩
  · rw [same]
    exact node.tracks_stepDown term
  · rw [conceded]
    exact fun leads => by cases leads

/-- What elections depend on stays. -/
structure Raft.RaftNode.SameRole (node after : RaftNode) : Prop where
  id : after.id = node.id
  peers : after.peers = node.peers
  currentTerm : after.currentTerm = node.currentTerm
  votedFor : after.votedFor = node.votedFor
  state : after.state = node.state

namespace Condensed

theorem quiet (condensed : Condensed deployment archive i elections node)
    (sound : Consensus.Sound archive.history)
    (path : (consensusContract deployment).Path i archive.history next) {whole : RaftNode}
    (replica : Replica deployment next i remaining whole) (counterpart : Counterpart next i whole after)
    (log : whole.log = .whole (archive.history.log i)) (rests : node.Rests after)
    (later : node.currentTerm ≤ after.currentTerm)
    (progress : after.state = .leader → ∀ j, j ≠ i →
      Archive.Reached { archive with history := next } after.currentTerm j
        (after.matchIndex.read (deployment.addr j)))
    (backed : after.Backed) :
    Condensed deployment { archive with history := next } i remaining after where
  counterpart := ⟨whole, replica, counterpart⟩
  compaction := by
    refine condensed.compaction.rests sound path ?_ rests later
    exact congrArg Log.rest (replica.log.symm.trans log)
  progress := progress
  backed := backed

theorem tracks (condensed : Condensed deployment archive i elections node)
    (sound : Consensus.Sound archive.history)
    (path : (consensusContract deployment).Path i archive.history next)
    (same : node.Tracks after) : after.state = .leader → ∀ j, j ≠ i → Archive.Reached { archive with history := next }
      after.currentTerm j (after.matchIndex.read (deployment.addr j)) := by
  intro leads j other
  obtain ⟨led, currentTerm, matchIndex⟩ := same leads
  rw [currentTerm, matchIndex]
  exact (condensed.progress led j other).path sound path

end Condensed

namespace Counterpart

omit [Fintype ι] [DecidableEq ι]

variable {history : Consensus.State ι LogEntry} {whole : RaftNode}

theorem stepDown (counterpart : Counterpart history i whole node) (term : Nat) :
    Counterpart history i (whole.stepDown term) (node.stepDown term) := by
  rcases node.stepDown_cases term with ⟨within, same⟩ | ⟨later, stepped⟩
  · rw [same, RaftNode.stepDown_of_le (counterpart.currentTerm.symm ▸ within)]
    exact counterpart
  · rw [stepped, RaftNode.stepDown_of_lt (counterpart.currentTerm.symm ▸ later)]
    exact ⟨counterpart.id, counterpart.peers, rfl, rfl, .inl rfl⟩

theorem observeLeader (counterpart : Counterpart history i whole node) (term : Nat) :
    Counterpart history i (whole.observeLeader term) (node.observeLeader term) := by
  have same := counterpart.currentTerm
  unfold RaftNode.observeLeader
  rw [same]
  split
  · exact ⟨counterpart.id, counterpart.peers, rfl, rfl, .inl rfl⟩
  · rcases counterpart.state with role | ⟨follows, stands, _⟩
    · rw [role]
      split
      · exact ⟨counterpart.id, counterpart.peers, rfl, counterpart.votedFor, .inl rfl⟩
      · exact counterpart
    · simp only [follows, stands, reduceCtorEq, and_false, and_true, ↓reduceIte]
      split
      · exact ⟨counterpart.id, counterpart.peers, same, counterpart.votedFor, .inl follows⟩
      · exact counterpart

theorem frame (counterpart : Counterpart history i whole node) {other : RaftNode}
    (whole' : whole.SameRole other) (node' : node.SameRole after) :
    Counterpart history i other after where
  id := by rw [whole'.id, node'.id, counterpart.id]
  peers := by rw [whole'.peers, node'.peers, counterpart.peers]
  currentTerm := by rw [whole'.currentTerm, node'.currentTerm, counterpart.currentTerm]
  votedFor := by rw [whole'.votedFor, node'.votedFor, counterpart.votedFor]
  state := by
    rw [whole'.state, node'.state, node'.currentTerm]
    exact counterpart.state

theorem handleRealVote (counterpart : Counterpart history i whole node)
    (alike : ∀ args, whole.candidateUpToDate args = node.candidateUpToDate args)
    (args : RequestVoteArgs) :
    Counterpart history i (whole.handleRealVote args).1 (node.handleRealVote args).1 ∧
      (whole.handleRealVote args).2 = (node.handleRealVote args).2 := by
  have stepped := counterpart.stepDown args.term
  have same : (whole.stepDown args.term).candidateUpToDate args =
      (node.stepDown args.term).candidateUpToDate args := by
    have compared := alike args
    simp only [RaftNode.candidateUpToDate, RaftNode.log_stepDown] at compared ⊢
    exact compared
  have willing : ((whole.stepDown args.term).canVote args.candidateID &&
        (whole.stepDown args.term).candidateUpToDate args) =
      ((node.stepDown args.term).canVote args.candidateID &&
        (node.stepDown args.term).candidateUpToDate args) := by
    rw [same, RaftNode.canVote, RaftNode.canVote, stepped.votedFor]
  simp only [RaftNode.handleRealVote, stepped.currentTerm, willing]
  by_cases stale : args.term < (node.stepDown args.term).currentTerm
  · simp only [stale, ↓reduceIte]
    exact ⟨stepped, trivial⟩
  · simp only [stale, ↓reduceIte]
    cases (node.stepDown args.term).canVote args.candidateID &&
        (node.stepDown args.term).candidateUpToDate args with
    | true => exact ⟨⟨stepped.id, stepped.peers, stepped.currentTerm, rfl, stepped.state⟩, rfl⟩
    | false => exact ⟨stepped, rfl⟩

end Counterpart

namespace Compaction

omit [DecidableEq ι] in
theorem lastIndex (compaction : Compaction archive i node) :
    node.log.lastIndex = (archive.history.log i).length := by
  rw [compaction.log, Log.lastIndex_compacted compaction.within]

/-- The marker stands for the entry of the whole log, unless entries that do not belong
to it follow. -/
theorem marked (compaction : Compaction archive i node) (sound : Consensus.Sound archive.history)
    (positive : 0 < node.log.snapshotIndex)
    (settled : Settled archive.history i node.log.snapshotIndex) : ∃ entry,
      (archive.history.log i)[node.log.snapshotIndex - 1]? = some entry ∧
        entry.term = node.log.snapshotTerm := by
  obtain ⟨entry, chosen, stamped⟩ := compaction.marker positive
  obtain ⟨held, found, chosen'⟩ := settled.chosen positive (Nat.le_refl _)
  exact ⟨entry, sound.chosen_unique chosen' chosen ▸ found, stamped⟩

omit [DecidableEq ι] in
theorem boundary_settled (compaction : Compaction archive i node)
    (settled : Settled archive.history i node.commitIndex) :
    Settled archive.history i node.log.snapshotIndex :=
  settled.mono (compaction.bottom.trans compaction.applied)

theorem lastTerm (compaction : Compaction archive i node) (sound : Consensus.Sound archive.history) :
    node.log.lastTerm = lastStamp (archive.history.log i) := by
  rw [compaction.log, Log.lastTerm_compacted compaction.within]
  intro positive whole
  rcases compaction.committed with settled | ⟨_, short⟩
  · obtain ⟨entry, found, stamped⟩ :=
      compaction.marked sound positive (compaction.boundary_settled settled)
    rw [whole] at found
    rw [lastStamp, List.getLast?_eq_getElem?, found]
    exact stamped
  · omega

/-- A node and its counterpart answer a vote request alike. -/
theorem candidateUpToDate (compaction : Compaction archive i node)
    (sound : Consensus.Sound archive.history) {whole : RaftNode}
    (log : whole.log = .whole (archive.history.log i)) (args : RequestVoteArgs) :
    whole.candidateUpToDate args = node.candidateUpToDate args := by
  simp only [RaftNode.candidateUpToDate, log, Log.lastTerm_whole, Log.lastIndex_whole,
    compaction.lastTerm sound, compaction.lastIndex]

end Compaction

namespace Condensed

theorem stepDown (condensed : Condensed deployment archive i elections node)
    (sound : Consensus.Sound archive.history) (term : Nat) :
    (condensedContract deployment).Reaches archive i fun next =>
      Consensus.Sound next.history ∧
        Condensed deployment next i elections (node.stepDown term) := by
  obtain ⟨whole, replica, counterpart⟩ := condensed.counterpart
  obtain ⟨next, path, sound', replica'⟩ := replica.stepDown sound term
  refine ⟨_, path.archived, sound', ?_⟩
  exact condensed.quiet sound path replica' ((counterpart.stepDown term).evolves path.evolves)
    ((whole.log_stepDown term).trans replica.log) (node.rests_stepDown term)
    (RaftNode.advances_stepDown term).standing.currentTerm_le
    (condensed.tracks sound path (node.tracks_stepDown term))
    (condensed.backed.persists (RaftNode.persists_stepDown term))

theorem observeLeader (condensed : Condensed deployment archive i elections node)
    (sound : Consensus.Sound archive.history) {term : Nat} (led : archive.history.Led term) :
    (condensedContract deployment).Reaches archive i fun next =>
      Consensus.Sound next.history ∧
        Condensed deployment next i elections (node.observeLeader term) := by
  obtain ⟨whole, replica, counterpart⟩ := condensed.counterpart
  obtain ⟨next, path, sound', replica'⟩ := replica.observeLeader sound led
  refine ⟨_, path.archived, sound', ?_⟩
  have advances : node.Advances (node.observeLeader term) :=
    ⟨term, RaftNode.keepsVote_observeLeader term⟩
  exact condensed.quiet sound path replica' ((counterpart.observeLeader term).evolves path.evolves)
    ((whole.log_observeLeader term).trans replica.log) (node.rests_observeLeader term)
    advances.standing.currentTerm_le (condensed.tracks sound path (node.tracks_observeLeader term))
    (condensed.backed.persists (RaftNode.persists_observeLeader term))

theorem becomeCandidate (condensed : Condensed deployment archive i elections node)
    (sound : Consensus.Sound archive.history) (own : node.id = (deployment.config i).id) :
    (condensedContract deployment).Reaches archive i fun next =>
      Condensed deployment next i (elections + 1) node.becomeCandidate := by
  obtain ⟨whole, replica, counterpart⟩ := condensed.counterpart
  obtain ⟨next, path, replica'⟩ := replica.becomeCandidate sound (counterpart.id.trans own)
  have stands : Counterpart next i whole.becomeCandidate node.becomeCandidate :=
    ⟨counterpart.id, counterpart.peers, congrArg (· + 1) counterpart.currentTerm, counterpart.id,
      .inl rfl⟩
  refine ⟨_, path.archived, ?_⟩
  exact condensed.quiet sound path replica' stands replica.log ⟨rfl, rfl, rfl⟩ (Nat.le_succ _)
    (fun leads => by cases leads) (condensed.backed.persists (.saves rfl rfl rfl))

theorem retains (condensed : Condensed deployment archive i elections node)
    (sound : Consensus.Sound archive.history) (role : node.SameRole after)
    (rests : node.Rests after) (matchIndex : after.matchIndex = node.matchIndex)
    (backed : after.Backed) : Condensed deployment archive i elections after := by
  obtain ⟨whole, replica, counterpart⟩ := condensed.counterpart
  exact condensed.quiet sound .refl replica (counterpart.frame ⟨rfl, rfl, rfl, rfl, rfl⟩ role)
    replica.log rests role.currentTerm.ge
    (condensed.tracks sound .refl fun leads =>
      ⟨role.state ▸ leads, role.currentTerm, matchIndex⟩) backed

end Condensed

variable {process : Process} {now : Nat}

theorem condensed_serveVote (mesh : deployment.FullMesh) (sound : Consensus.Sound archive.history)
    (condensed : Condensed deployment archive i process.elections process.node) {poll : Poll ι}
    {call : Nat} (identity : poll.args.candidateID = (deployment.config poll.caller).id)
    (canvass : poll.args.isPreVote = false → Canvass deployment archive.history poll)
    (found : poll.calls[call]? = some (deployment.addr i, .requested)) :
    (condensedContract deployment).Reaches archive i fun next =>
      Condensed deployment next i process.elections
        (process.node.handleRequestVote now poll.args).1 ∧
      (poll.args.isPreVote = false → Canvass deployment next.history
        (poll.setPhase call (.replied (process.node.handleRequestVote now poll.args).2))) := by
  have backed := Process.backed_step condensed.backed
    (rfl : process.step deployment.codec now (.requestVote poll.args) = some _)
  cases kind : poll.args.isPreVote with
  | true =>
    refine .here ⟨?_, fun real => by cases real⟩
    have same : (process.node.handleRequestVote now poll.args).1 = process.node := by
      rw [RaftNode.handleRequestVote, if_pos kind, RaftNode.handlePreVote]
      split <;> rfl
    rw [same]
    exact condensed
  | false =>
    obtain ⟨whole, replica, counterpart⟩ := condensed.counterpart
    obtain ⟨next, path, replica', polled⟩ := @consensus_serveVote ι _ deployment archive.history _ i
      (process.withNode whole) now mesh sound replica poll call identity canvass found
    have real (node : RaftNode) :
        node.handleRequestVote now poll.args = node.handleRealVote poll.args := by
      simp [RaftNode.handleRequestVote, kind]
    obtain ⟨voter, answer⟩ := counterpart.handleRealVote
      (condensed.compaction.candidateUpToDate sound replica.log) poll.args
    have answered := polled kind
    have logs := (whole.rests_handleRequestVote now poll.args).log.trans replica.log
    simp only [Process.withNode] at replica' answered
    rw [real] at replica' answered logs
    have rests := process.node.rests_handleRequestVote now poll.args
    have later : process.node.currentTerm ≤
        (process.node.handleRequestVote now poll.args).1.currentTerm :=
      (RaftNode.standing_handleRequestVote now poll.args).currentTerm_le
    refine ⟨_, path.archived, ?_, fun _ => ?_⟩
    · have tracks : process.node.Tracks (process.node.handleRequestVote now poll.args).1 := by
        rcases process.node.handleRequestVote_cases now poll.args with
          ⟨⟨term, stepped⟩, _⟩ | ⟨_, _, _, _, granted⟩
        · rw [stepped]
          exact process.node.tracks_stepDown term
        · rw [granted]
          exact process.node.tracks_stepDown poll.args.term
      refine condensed.quiet sound path replica' ?_ logs rests later
        (condensed.tracks sound path tracks) backed
      rw [real]
      exact voter.evolves path.evolves
    · rw [real, ← answer]
      exact answered

/-- Only a candidate its counterpart agrees with can complete a majority. -/
theorem Condensed.becomeLeader (mesh : deployment.FullMesh)
    (condensed : Condensed deployment archive i elections node)
    (sound : Consensus.Sound archive.history) (peers : node.peers = (deployment.config i).peers)
    (stands : node.state = .candidate) {voters : Finset ι} (majority : IsMajority voters)
    (votes : ∀ voter ∈ voters, archive.history.ballot node.currentTerm voter = some i)
    (support : ∀ voter ∈ voters, voter = i ∨
      (∃ log, archive.history.endorsed node.currentTerm i voter log) ∨
        Moot archive.history node.currentTerm i) :
    (condensedContract deployment).Reaches archive i fun next =>
      Condensed deployment next i elections (node.becomeLeader now) := by
  obtain ⟨whole, replica, counterpart⟩ := condensed.counterpart
  rcases counterpart.state with same | ⟨_, _, ⟨leader, different, leads⟩, _⟩
  · rw [← counterpart.currentTerm] at votes support
    obtain ⟨next, path, replica'⟩ := replica.becomeLeader mesh sound (counterpart.peers.trans peers)
      (same.trans stands) majority votes support now
    have elected : Counterpart next i (whole.becomeLeader now) (node.becomeLeader now) :=
      ⟨counterpart.id, counterpart.peers, counterpart.currentTerm, counterpart.votedFor, .inl rfl⟩
    refine ⟨_, path.archived, ?_⟩
    refine condensed.quiet sound path replica' elected replica.log ⟨rfl, rfl, rfl⟩ (Nat.le_refl _)
      (fun _ j other => .inl ?_) (condensed.backed.persists (.rests rfl rfl rfl))
    have known : deployment.addr j ∈ node.peers := by
      rw [peers]
      exact (mesh.mem_peers i _).mpr ⟨j, other, rfl⟩
    rw [RaftNode.matchIndex_becomeLeader known]
    exact Nat.zero_le _
  · exact absurd (sound.ballots.winner_unique leads majority votes) different

omit [DecidableEq ι] in
theorem Condensed.candidate (condensed : Condensed deployment archive i elections node)
    (stands : node.state = .candidate) :
    archive.history.ballot node.currentTerm i = some i := by
  obtain ⟨whole, replica, counterpart⟩ := condensed.counterpart
  rcases counterpart.state with same | ⟨_, _, outrun⟩
  · rw [← counterpart.currentTerm]
    exact replica.voting.candidate (same.trans stands)
  · exact outrun.stood

theorem condensed_resumeVote (mesh : deployment.FullMesh) (sound : Consensus.Sound archive.history)
    {poll : Poll ι}
    (condensed : Condensed deployment archive poll.caller process.elections process.node)
    (peers : process.node.peers = (deployment.config poll.caller).peers) {call : Nat}
    {peer : String} {reply : RequestVoteReply}
    (listed : poll.calls.map Prod.fst = (deployment.config poll.caller).peers)
    (canvass : Canvass deployment archive.history poll) (real : poll.args.isPreVote = false)
    (found : poll.calls[call]? = some (peer, .replied reply)) :
    (condensedContract deployment).Reaches archive poll.caller fun next =>
      Condensed deployment next poll.caller process.elections (process.node.handleVoteReply now
        poll.args.term poll.votes poll.majority reply).1 ∧
      Canvass deployment next.history ((poll.setPhase call (.resumed reply)).count
        (process.node.handleVoteReply now poll.args.term poll.votes poll.majority reply).2) := by
  rcases process.node.handleVoteReply_cases now poll.args.term poll.votes poll.majority reply
    with ⟨⟨term, stepped⟩, counted⟩ | ⟨stands, current, vote, complete, won⟩
  · obtain ⟨next, path, _, condensed'⟩ := condensed.stepDown sound term
    have later : Canvass deployment next.history poll := path.poll sound (fun _ => canvass) real
    refine ⟨next, path, by rw [stepped]; exact condensed', ?_⟩
    exact later.reply found rfl rfl rfl (later.honest.tally.resume found counted)
      (later.granted found)
  · obtain ⟨majority, votes⟩ := canvass.honest.majority mesh listed found vote complete
      (current ▸ condensed.candidate stands)
    rw [← current] at votes
    obtain ⟨next, path, condensed'⟩ := condensed.becomeLeader mesh sound peers stands majority
      votes fun _ member => current ▸ canvass.supported member
    have later : Canvass deployment next.history poll := path.poll sound (fun _ => canvass) real
    rw [won]
    exact ⟨next, path, condensed', later.reply found rfl rfl rfl
      (later.honest.tally.resume found fun _ => vote) (later.granted found)⟩

/-- `startElection` tells the log the counterpart stands with. -/
theorem Condensed.startElection (condensed : Condensed deployment archive i process.elections
    process.node) (sound : Consensus.Sound archive.history) (waiting : process.elections ≠ 0) :
    Condensed deployment archive i (process.elections - 1) process.node ∧
      Canvass deployment archive.history (.start i process process.node.voteArgs) := by
  obtain ⟨whole, replica, counterpart⟩ := condensed.counterpart
  have rest : Replica deployment archive.history i (process.elections - 1) whole :=
    { replica with spawned := fun _ => replica.spawned waiting }
  have told : whole.voteArgs = process.node.voteArgs := by
    simp only [RaftNode.voteArgs, counterpart.currentTerm, counterpart.id, replica.log,
      Log.lastIndex_whole, Log.lastTerm_whole, condensed.compaction.lastIndex,
      condensed.compaction.lastTerm sound]
  have started : Poll.start i (process.withNode whole) whole.voteArgs =
      Poll.start i process process.node.voteArgs := by
    rw [told]
    simp only [Poll.start, Process.withNode, counterpart.peers]
  have canvass : Canvass deployment archive.history
      (.start i (process.withNode whole) whole.voteArgs) := .start replica waiting
  exact ⟨{ condensed with counterpart := ⟨whole, rest, counterpart⟩ }, started ▸ canvass⟩

end RaftGo
