import RaftGo.Cluster.Replicate

/-! Clusters that take no snapshots, change no members and whose leaders keep
hearing from a quorum refine the replicated log of `Library.Consensus`. -/

namespace RaftGo

open Raft KvStore Library Library.Consensus

/-- No membership change, no step down for want of a quorum, and no snapshot. -/
def Uncompacted (now : Nat) (process : Process) (input : Input) : Prop :=
  LeadersHearQuorum now process input ∧
    ∀ saved, input = .readApplyCh saved → process.reader.takesSnapshot = false

instance (now : Nat) (process : Process) (input : Input) :
    Decidable (Uncompacted now process input) :=
  inferInstanceAs (Decidable (_ ∧ _))

section Internal

variable {process after : Process} {codec : Codec} {now : Nat} {input : Input} {node : RaftNode}

/-- Apart from client calls nothing a process does on its own touches what
elections and replication depend on. -/
theorem KvStore.Process.NodeEffect.retains (effect : process.NodeEffect codec now input node)
    (permitted : Uncompacted now process input) (silent : ∀ op, input ≠ .call op) :
    process.node.Retains node := by
  cases effect with
  | idle idles _ =>
    obtain ⟨_, _, _, _, rfl⟩ := idles
    exact ⟨rfl, rfl, rfl, rfl, rfl, rfl, rfl⟩
  | heartbeat =>
    obtain ⟨sent, same⟩ := RaftNode.heartbeatTick_of_quorum (permitted.1.2 rfl)
    rw [same]
    exact ⟨rfl, rfl, rfl, rfl, rfl, rfl, rfl⟩
  | submit op => exact absurd rfl (silent op)
  | takeSnapshot data saved holding =>
    have never := permitted.2 saved rfl
    simp [holding, Reader.takesSnapshot] at never

variable {ι : Type} [Fintype ι] [DecidableEq ι] {deployment : Deployment ι}
  {ghost : Consensus.State ι LogEntry} {i : ι} {elections : Nat}

theorem Answers.internal (answers : Answers codec ghost process) (sound : Consensus.Sound ghost)
    (replica : Replica deployment ghost i elections process.node)
    (internal : input.isInternal = true) (fixed : input.keepsMembership = true)
    (silent : ∀ op, input ≠ .call op)
    (stepped : process.step codec now input = some after) : Answers codec ghost after := by
  cases input with
  | electionTimeout =>
    simp only [Process.step] at stepped
    split at stepped <;> cases stepped <;> exact { answers with }
  | heartbeat =>
    cases stepped
    exact answers.withNode _
  | resetTimer =>
    simp only [Process.step] at stepped
    split at stepped <;> cases stepped
    exact answers.withNode _
  | applyLoop branch => exact answers.apply replica.next_chosen (Process.applyLoop_cases stepped)
  | readApplyCh saved => exact answers.read sound (Process.readApplyCh_cases stepped)
  | call op => exact absurd rfl (silent op)
  | registerCall caller => exact answers.registerCall stepped
  | finishCall caller => exact answers.finishCall stepped
  | timeOutCall caller => exact answers.timeOutCall stepped
  | addPeer rpcAddr => cases fixed
  | removePeer rpcAddr => cases fixed
  | _ => cases internal

theorem Answers.path (answers : Answers codec ghost process) (sound : Consensus.Sound ghost)
    {next : Consensus.State ι LogEntry}
    (path : (consensusContract deployment).Path i ghost next) : Answers codec next process :=
  path.keeps (Answers codec · process) sound (fun sound moved kept => kept.moves sound moved) answers

theorem Replica.startCall (replica : Replica deployment ghost i process.elections process.node)
    (answers : Answers deployment.codec ghost process) (sound : Consensus.Sound ghost) (op : Op) :
    (consensusContract deployment).Reaches ghost i fun next =>
      (consensusShape deployment next).process i (process.startCall deployment.codec op) ∧
        ∀ out ∈ (process.node.submit (deployment.codec.encodeOp op)).2.2,
          (consensusShape deployment next).Sends i process.boots out := by
  by_cases leads : process.node.state = .leader
  · obtain ⟨next, path, sound', replica', written⟩ :=
      replica.submit sound leads (deployment.codec.encodeOp op)
    have started : process.startCall deployment.codec op = { process with
        node := (process.node.submit (deployment.codec.encodeOp op)).1
        calls := process.calls ++ [{
          op := op
          index := process.node.log.lastIndex + 1
          term := process.node.currentTerm
          state := .submitted }] } := by
      simp [Process.startCall, RaftNode.submit, leads]
    have sent : (process.node.submit (deployment.codec.encodeOp op)).2.2 =
        (process.node.submit (deployment.codec.encodeOp op)).1.replicate := by
      simp [RaftNode.submit, leads]
    have leads' : (process.node.submit (deployment.codec.encodeOp op)).1.state = .leader := by
      simp [RaftNode.submit, leads, RaftNode.persist, RaftNode.write]
    have recorded : Recorded deployment.codec next {
        op := op
        index := process.node.log.lastIndex + 1
        term := process.node.currentTerm
        state := .submitted } := ⟨.inr written, by simp, by simp⟩
    refine ⟨next, path, ⟨?_, ?_⟩, sent ▸ replica'.sends sound' leads' _⟩
    · rw [started]
      exact replica'
    · rw [started]
      exact ((answers.path sound path).addCall recorded).withNode _
  · have refused : process.startCall deployment.codec op = { process with
        calls := process.calls ++ [{
          op := op
          index := 0
          term := 0
          state := .returned (.error .notLeader) }] } := by
      simp [Process.startCall, RaftNode.submit, leads]
    refine .here ⟨⟨?_, ?_⟩, by simp [RaftNode.submit, leads]⟩
    · rw [refused]
      exact replica
    · rw [refused]
      exact answers.addCall ⟨.inl rfl, by simp, by simp⟩

end Internal

variable {ι : Type} [Fintype ι] {deployment : Deployment ι} {ghost : Consensus.State ι LogEntry}

omit [Fintype ι] in
theorem Canvass.reply {poll after : Poll ι} {call : Nat} {peer : String}
    {before phase : Phase RequestVoteReply} (canvass : Canvass deployment ghost poll)
    (found : poll.calls[call]? = some (peer, before)) (caller : after.caller = poll.caller)
    (args : after.args = poll.args) (calls : after.calls = (poll.setPhase call phase).calls)
    (tally : after.Tally)
    (granted : phase.granted = true → ∀ j, deployment.addr j = peer →
      ghost.ballot poll.args.term j = some poll.caller ∧
        ((∃ log, ghost.endorsed poll.args.term poll.caller j log) ∨
          Moot ghost poll.args.term poll.caller)) : Canvass deployment ghost after where
  honest := by
    refine ⟨?_, tally⟩
    rw [calls, args, caller]
    exact canvass.honest.reply found fun vote j routed => (granted vote j routed).1
  standing := by
    rw [args, caller]
    exact canvass.standing
  support := by
    rw [calls, args, caller, Poll.calls_setPhase found]
    intro other status member vote j routed
    rcases List.mem_or_eq_of_mem_set member with old | new
    · exact canvass.support other status old vote j routed
    · cases new
      exact (granted vote j routed).2

omit [Fintype ι] in
/-- A reply that was recorded as granted keeps its meaning when it is processed. -/
theorem Canvass.granted {poll : Poll ι} (canvass : Canvass deployment ghost poll) {call : Nat}
    {peer : String} {reply : RequestVoteReply}
    (found : poll.calls[call]? = some (peer, .replied reply)) (vote : reply.voteGranted = true)
    (j : ι) (routed : deployment.addr j = peer) :
    ghost.ballot poll.args.term j = some poll.caller ∧
      ((∃ log, ghost.endorsed poll.args.term poll.caller j log) ∨
        Moot ghost poll.args.term poll.caller) :=
  have member := List.mem_of_getElem? found
  ⟨canvass.honest.cast peer _ member vote j routed, canvass.support peer _ member vote j routed⟩

/-- Whoever the candidate counts has endorsed it, or the candidacy is void. -/
theorem Canvass.supported [DecidableEq ι] {poll : Poll ι} (canvass : Canvass deployment ghost poll)
    {voter : ι} (member : voter ∈ deployment.quorum poll.caller poll.supporters) :
    voter = poll.caller ∨ (∃ log, ghost.endorsed poll.args.term poll.caller voter log) ∨
      Moot ghost poll.args.term poll.caller := by
  rcases Deployment.mem_quorum.mp member with same | supports
  · exact .inl same
  · obtain ⟨phase, calling, granted⟩ := Poll.mem_supporters.mp supports
    exact .inr (canvass.support _ phase calling granted voter rfl)

theorem Canvass.start {i : ι} {process : Process}
    (replica : Replica deployment ghost i process.elections process.node)
    (waiting : process.elections ≠ 0) :
    Canvass deployment ghost (.start i process process.node.voteArgs) where
  honest := by
    refine ⟨?_, .start ..⟩
    intro peer phase member granted
    simp only [Poll.start, List.mem_map, Prod.mk.injEq] at member
    obtain ⟨_, _, _, rfl⟩ := member
    cases granted
  standing := by
    rcases replica.spawned waiting with stands | moot
    · refine .inl ⟨ghost.log i, (replica.stands stands).1, ?_, ?_⟩
      · simp [Poll.start, RaftNode.voteArgs, replica.log]
      · simp [Poll.start, RaftNode.voteArgs, replica.log, Log.lastTerm_whole]
    · exact .inr moot
  support := by
    intro peer phase member granted
    simp only [Poll.start, List.mem_map, Prod.mk.injEq] at member
    obtain ⟨_, _, _, rfl⟩ := member
    cases granted

/-- A reply to `AppendEntries` that claims success is an acknowledgement. -/
theorem Shipment.reply {rpc : AppendRpc ι} (shipment : Shipment deployment ghost rpc)
    {phase : Phase AppendEntriesReply}
    (acked : ∀ reply, phase = .replied reply → reply.success = true →
      ∀ j, deployment.addr j = rpc.peer →
        rpc.args.prevLogIndex + rpc.args.entries.length ≤ ghost.acked rpc.term j) :
    Shipment deployment ghost (rpc.setPhase phase) :=
  { shipment with acked := acked }

variable [DecidableEq ι] {i : ι} {process : Process} {now : Nat}

theorem consensus_serveVote (mesh : deployment.FullMesh) (sound : Consensus.Sound ghost)
    (replica : Replica deployment ghost i process.elections process.node) {poll : Poll ι}
    {call : Nat} (identity : poll.args.candidateID = (deployment.config poll.caller).id)
    (canvass : poll.args.isPreVote = false → Canvass deployment ghost poll)
    (found : poll.calls[call]? = some (deployment.addr i, .requested)) :
    (consensusContract deployment).Reaches ghost i fun next =>
      Replica deployment next i process.elections
        (process.node.handleRequestVote now poll.args).1 ∧
      (poll.args.isPreVote = false → Canvass deployment next
        (poll.setPhase call (.replied (process.node.handleRequestVote now poll.args).2))) := by
  rcases process.node.handleRequestVote_cases now poll.args with
    ⟨⟨term, stepped⟩, refused⟩ | ⟨real, current, free, willing, granted⟩
  · obtain ⟨next, path, _, replica'⟩ := replica.stepDown sound term
    refine ⟨next, path, by rw [stepped]; exact replica', fun real => ?_⟩
    have later := path.poll sound canvass real
    refine later.reply found rfl rfl rfl (later.honest.tally.serve found) ?_
    intro vote
    simp [refused vote] at real
  · obtain ⟨middle, first, sound', replica'⟩ := replica.stepDown sound poll.args.term
    rw [identity] at free granted
    obtain ⟨next, second, voter, cast, support⟩ := replica'.grantVote mesh sound'
      (first.poll sound canvass real) real current free willing
    have path : (consensusContract deployment).Path i ghost next := first.trans second
    refine ⟨next, path, by rw [granted]; exact voter, fun _ => ?_⟩
    have later := path.poll sound canvass real
    refine later.reply found rfl rfl rfl (later.honest.tally.serve found) ?_
    intro _ j routed
    have same := mesh.addr_injective j i routed
    subst same
    exact ⟨cast, support⟩

theorem consensus_resumeVote (mesh : deployment.FullMesh) (sound : Consensus.Sound ghost)
    {poll : Poll ι}
    (replica : Replica deployment ghost poll.caller process.elections process.node)
    (peers : process.node.peers = (deployment.config poll.caller).peers) {call : Nat}
    {peer : String} {reply : RequestVoteReply}
    (listed : poll.calls.map Prod.fst = (deployment.config poll.caller).peers)
    (canvass : Canvass deployment ghost poll) (real : poll.args.isPreVote = false)
    (found : poll.calls[call]? = some (peer, .replied reply)) :
    (consensusContract deployment).Reaches ghost poll.caller fun next =>
      Replica deployment next poll.caller process.elections (process.node.handleVoteReply now
        poll.args.term poll.votes poll.majority reply).1 ∧
      Canvass deployment next ((poll.setPhase call (.resumed reply)).count
        (process.node.handleVoteReply now poll.args.term poll.votes poll.majority reply).2) := by
  rcases process.node.handleVoteReply_cases now poll.args.term poll.votes poll.majority reply
    with ⟨⟨term, stepped⟩, counted⟩ | ⟨stands, current, vote, complete, won⟩
  · obtain ⟨next, path, _, replica'⟩ := replica.stepDown sound term
    refine ⟨next, path, by rw [stepped]; exact replica', ?_⟩
    have later := path.poll sound (fun _ => canvass) real
    exact later.reply found rfl rfl rfl (later.honest.tally.resume found counted)
      (later.granted found)
  · obtain ⟨majority, votes⟩ := canvass.honest.majority mesh listed found vote complete
      (by rw [← current]; exact replica.voting.candidate stands)
    rw [← current] at votes
    obtain ⟨next, path, replica'⟩ := replica.becomeLeader mesh sound peers stands majority votes
      (fun _ member => current ▸ canvass.supported member) now
    rw [won]
    have later := path.poll sound (fun _ => canvass) real
    exact ⟨next, path, replica', later.reply found rfl rfl rfl
      (later.honest.tally.resume found fun _ => vote) (later.granted found)⟩

theorem consensus_serveAppend (mesh : deployment.FullMesh) (sound : Consensus.Sound ghost)
    (replica : Replica deployment ghost i process.elections process.node) {rpc : AppendRpc ι}
    (shipment : Shipment deployment ghost rpc) (routed : deployment.addr i = rpc.peer) :
    (consensusContract deployment).Reaches ghost i fun next =>
      Replica deployment next i process.elections
        (process.node.handleAppendEntries now rpc.args).1 ∧
      Shipment deployment next
        (rpc.setPhase (.replied (process.node.handleAppendEntries now rpc.args).2)) := by
  rcases process.node.handleAppendEntries_cases now rpc.args with
    ⟨_, same, failed⟩ | ⟨current, outcome⟩
  · refine .here ⟨by rw [same]; exact replica, shipment.reply ?_⟩
    rintro reply ⟨rfl⟩ success
    cases failed.symm.trans success
  · obtain ⟨middle, first, sound', observed⟩ :=
      replica.observeLeader sound (shipment.term ▸ shipment.led)
    have shipment' : Shipment deployment middle rpc := first.append sound shipment
    have contacted : Replica deployment middle i process.elections
        ((process.node.observeLeader rpc.args.term).contacted now rpc.args.leaderID) :=
      observed.retains ⟨rfl, rfl, rfl, rfl, rfl, rfl, rfl⟩
    rcases outcome with ⟨refused, failed⟩ | ⟨agrees, accepted⟩
    · refine ⟨middle, first, by rw [refused]; exact contacted, shipment'.reply ?_⟩
      rintro reply ⟨rfl⟩ success
      cases failed.symm.trans success
    · obtain ⟨next, second, accepting, acked⟩ := contacted.acceptEntries sound' shipment'
        (current.trans shipment.term) (RaftNode.not_candidate_of_observeLeader current) agrees
      have path : (consensusContract deployment).Path i ghost next := first.trans second
      have later : Shipment deployment next rpc := path.append sound shipment
      refine ⟨next, path, by rw [accepted]; exact accepting, later.reply ?_⟩
      intro _ _ _ j addressed
      have same := mesh.addr_injective j i (addressed.trans routed.symm)
      subst same
      exact acked

theorem consensus_resumeAppend (mesh : deployment.FullMesh) (sound : Consensus.Sound ghost)
    (replica : Replica deployment ghost i process.elections process.node)
    (peers : process.node.peers = (deployment.config i).peers) {rpc : AppendRpc ι}
    (shipment : Shipment deployment ghost rpc) {reply : AppendEntriesReply}
    (replied : rpc.phase = .replied reply) :
    (consensusContract deployment).Reaches ghost i fun next =>
      Replica deployment next i process.elections
        (process.node.handleAppendReply now rpc.peer rpc.term rpc.args reply) := by
  rcases process.node.handleAppendReply_cases now rpc.peer rpc.term rpc.args reply with
    ⟨term, stepped⟩ | ⟨leads, current, recorded⟩
  · rw [stepped]
    exact (replica.stepDown sound term).weaken fun _ reached => reached.2
  · rw [recorded]
    refine .here (replica.recordReply mesh sound peers leads ?_ now)
    intro success
    rw [current]
    exact shipment.acked reply replied success

theorem consensus_kept (mesh : deployment.FullMesh) :
    (consensusContract deployment).Kept deployment (plainShape deployment) Uncompacted where
  internal := by
    intro ghost i now process input after at' internal permitted stepped
    obtain ⟨replica, answers⟩ := at'.process
    by_cases silent : ∀ op, input ≠ .call op
    · obtain ⟨effect, boots, elections⟩ :=
        Process.node_effect at'.base internal permitted.1.1 stepped
      have retains := effect.retains permitted silent
      have replica' := replica.retains retains
      refine .here ⟨⟨elections ▸ replica', ?_⟩, ?_⟩
      · exact answers.internal at'.sound replica internal permitted.1.1 silent stepped
      · intro out sending
        obtain ⟨leads, _, sent⟩ := Process.outgoing_cases sending stepped
        exact replica'.sends at'.sound (retains.state.trans leads) process.boots out sent
    · obtain ⟨op, rfl⟩ := not_forall_not.mp silent
      cases stepped
      exact replica.startCall answers at'.sound op
  startPreVote at' := ⟨⟨at'.process.1, { at'.process.2 with }⟩,
    by simp [consensusContract, consensusShape, Poll.start, RaftNode.preVoteArgs]⟩
  startElection at' waiting :=
    ⟨⟨{ at'.process.1 with spawned := fun _ => at'.process.1.spawned waiting },
      { at'.process.2 with }⟩, fun _ => .start at'.process.1 waiting⟩
  serveVote at' plain canvass found := by
    obtain ⟨next, path, replica, polled⟩ :=
      consensus_serveVote mesh at'.sound at'.process.1 plain.2 canvass found
    exact ⟨next, path, ⟨replica, (at'.process.2.path at'.sound path).withNode _⟩, polled⟩
  resumePreVote _ _ _ probe _ real := by simp [probe] at real
  becomeCandidate := by
    intro ghost process poll after now _ at' canvass probe stepped
    obtain ⟨replica, answers⟩ := at'.process
    simp only [Process.step] at stepped
    split at stepped <;> cases stepped
    · obtain ⟨next, path, candidate⟩ := replica.becomeCandidate at'.sound at'.base.id
      exact ⟨next, path, ⟨candidate, { answers.path at'.sound path with }⟩,
        fun real => by simp [probe] at real⟩
    · exact .here ⟨⟨replica, answers⟩, fun real => by simp [probe] at real⟩
  resumeVote plain at' canvass real _ found := by
    obtain ⟨next, path, replica, polled⟩ := consensus_resumeVote mesh at'.sound at'.process.1
      at'.base.peers plain.1 (canvass real) real found
    exact ⟨next, path, ⟨replica, (at'.process.2.path at'.sound path).withNode _⟩,
      fun _ => polled⟩
  serveAppend at' _ shipment _ routed := by
    obtain ⟨next, path, replica, answered⟩ :=
      consensus_serveAppend mesh at'.sound at'.process.1 shipment routed
    exact ⟨next, path, ⟨replica, (at'.process.2.path at'.sound path).withNode _⟩, answered⟩
  resumeAppend _ at' shipment replied _ := by
    obtain ⟨next, path, replica⟩ := consensus_resumeAppend mesh at'.sound at'.process.1
      at'.base.peers shipment replied
    exact ⟨next, path, ⟨replica, (at'.process.2.path at'.sound path).withNode _⟩,
      Shipment.reply (path.append at'.sound shipment) (by simp)⟩
  serveInstall := by
    intro ghost i process rpc saved _ at' _ empty _ _
    have nothing : rpc.args.lastIncludedIndex = 0 := empty
    obtain ⟨next, path, _, replica⟩ := at'.process.1.stepDown at'.sound rpc.args.term
    refine ⟨next, path, ⟨?_, (at'.process.2.path at'.sound path).withNode _⟩, empty⟩
    have covered : rpc.args.lastIncludedIndex ≤ process.node.log.snapshotIndex :=
      nothing ▸ Nat.zero_le _
    have relieved := RaftNode.handleInstallSnapshot_covered saved covered
    generalize (process.node.handleInstallSnapshot rpc.args saved).1 = after at relieved
    cases relieved with
    | stale => exact replica
    | current => exact replica.retains ⟨rfl, rfl, rfl, rfl, rfl, rfl, rfl⟩
  resumeInstall := by
    intro ghost process rpc reply _ at' empty _ _
    have nothing : rpc.args.lastIncludedIndex = 0 := empty
    rcases process.node.handleInstallReply_cases rpc.peer rpc.term rpc.args reply with
      ⟨term, stepped⟩ | ⟨_, _, advanced⟩
    · obtain ⟨next, path, _, replica⟩ := at'.process.1.stepDown at'.sound term
      exact ⟨next, path, ⟨stepped ▸ replica, (at'.process.2.path at'.sound path).withNode _⟩,
        empty⟩
    · refine .here ⟨⟨advanced ▸ at'.process.1.advanceMatch ?_, at'.process.2.withNode _⟩, empty⟩
      exact fun _ _ _ => nothing ▸ Nat.zero_le _
  restart at' := ⟨at'.process.1.restart _ rfl at'.process.1.snapshot, .start ..⟩
  interrupt := by
    intro ghost i now process input after disk at' permitted _ installs stepped member
    obtain ⟨torn, snapshot⟩ := Process.torn_step stepped member
    have bare : disk.snapshot = none := by
      rcases snapshot with same | ⟨args, saved, rfl, ahead⟩ | ⟨data, saved, rfl, holding⟩
      · exact same.trans at'.process.1.snapshot
      · obtain ⟨rpc, _, empty, rfl⟩ := installs args saved rfl
        have nothing : rpc.args.lastIncludedIndex = 0 := empty
        omega
      · have never := (permitted rfl).2 saved rfl
        simp [holding, Reader.takesSnapshot] at never
    rcases torn with same | ⟨term, later, same⟩
    · exact .here ⟨at'.process.1.restart _ same bare, .start ..⟩
    · obtain ⟨next, path, _, replica⟩ := at'.process.1.stepDown at'.sound term
      rw [RaftNode.stepDown_of_lt later] at replica
      exact ⟨next, path, replica.restart _ same bare, .start ..⟩

theorem consensus_initial : (consensusContract deployment).Related .initial deployment.initial where
  sound := Consensus.Sound.initial
  holds := {
    process := fun i => by
      have empty : (({} : Disk).snapshot) = none := rfl
      obtain ⟨state, _⟩ := RaftNode.boot_vote (deployment.config i) {}
      obtain ⟨log, commit⟩ := RaftNode.boot_unsnapshotted (deployment.config i) empty
      refine ⟨?_, .start ..⟩
      exact {
        voting := .initial i
        log := log
        indexed := .nil
        stored := by
          simp only [RaftNode.Stored, Deployment.initial, Deployment.startProcess, Process.start,
            RaftNode.boot_disk]
          exact log
        snapshot := by
          simp [Deployment.initial, Deployment.startProcess, Process.start, RaftNode.boot_disk]
        settled := .inl commit
        stands := fun stands => by cases state.symm.trans stands
        progress := fun leads => by cases state.symm.trans leads
        own := fun leads => by cases state.symm.trans leads
        spawned := fun waiting => absurd rfl waiting }
    poll := fun _ member => by cases member
    append := fun _ member => by cases member
    install := fun _ member => by cases member }

end RaftGo
