import RaftGo.Cluster.Catchup

/-! Clusters with fixed members whose leaders keep hearing from a quorum refine the
replicated log of `Library.Consensus` also when their nodes compact, restart from
snapshots and send them to each other, as long as a snapshot that is to be installed can
be saved. -/

namespace RaftGo

open Raft KvStore Library Library.Consensus

variable {ι : Type} [Fintype ι] [DecidableEq ι] {deployment : Deployment ι} {archive : Archive ι}
  {next : Consensus.State ι LogEntry} {i : ι} {elections : Nat} {node after : RaftNode}

namespace Condensed

omit [DecidableEq ι] in
theorem restart (condensed : Condensed deployment archive i elections node) (cfg : Config)
    {disk : Disk} (backs : disk.Backs node.memory) :
    Condensed deployment archive i 0 (boot cfg disk) := by
  obtain ⟨whole, replica, counterpart⟩ := condensed.counterpart
  have compaction := condensed.compaction
  have memory : (boot cfg disk).memory = node.memory := (memory_boot cfg disk).trans backs.recovered
  have currentTerm : (boot cfg disk).currentTerm = node.currentTerm :=
    congrArg PersistedState.currentTerm memory
  have votedFor : (boot cfg disk).votedFor = node.votedFor :=
    congrArg PersistedState.votedFor memory
  have log : (boot cfg disk).log = node.log := congrArg PersistedState.entries memory
  have boundary : disk.covered = node.log.snapshotIndex := backs.snapshotIndex_eq.symm
  have follows := (RaftNode.boot_vote cfg disk).1
  obtain ⟨term, data, booted⟩ := boot_eq cfg disk
  have lastApplied : (boot cfg disk).lastApplied = node.log.snapshotIndex := by
    rw [booted]
    exact boundary
  have commitIndex : (boot cfg disk).commitIndex = node.log.snapshotIndex := by
    rw [booted]
    exact boundary
  refine ⟨⟨boot cfg whole.disk, replica.restart cfg rfl replica.snapshot, ?_⟩, ?_, ?_,
    backs.boot cfg⟩
  · obtain ⟨term', data', booted'⟩ := boot_eq cfg whole.disk
    have kept := RaftNode.keepsVote_boot replica.voting.synced cfg rfl
    refine ⟨by rw [booted, booted'], by rw [booted, booted'], ?_, ?_, .inl ?_⟩
    · rw [kept.currentTerm, currentTerm, counterpart.currentTerm]
    · rw [kept.votedFor, votedFor, counterpart.votedFor]
    · rw [booted, booted']
  · refine ⟨log ▸ compaction.covered, by rw [log]; exact compaction.log, log ▸ compaction.within, ?_,
      log ▸ compaction.marker, ?_, ?_, ?_⟩
    · rw [currentTerm, log]
      exact compaction.decided
    · rw [log, lastApplied]
    · rw [lastApplied, commitIndex]
    · rw [commitIndex, log]
      exact compaction.committed.imp compaction.boundary_settled fun foreign => ⟨rfl, foreign.2⟩
  · exact fun leads => by cases follows.symm.trans leads

theorem internal {process after : Process} {now : Nat} {input : Input} {cfg : Config}
    (condensed : Condensed deployment archive i process.elections process.node)
    (sound : Consensus.Sound archive.history) (plain : process.node.Plain cfg)
    (internal : input.isInternal = true) (permitted : LeadersHearQuorum now process input)
    (stepped : process.step deployment.codec now input = some after) :
    (condensedContract deployment).Reaches archive i fun next =>
      Condensed deployment next i process.elections after.node ∧
        (process.node.state = .leader → after.node.state = .leader) := by
  have backed := Process.backed_step condensed.backed stepped
  have bottom := boundary_step condensed.compaction.bottom stepped
  have applied := applied_step condensed.compaction.applied stepped
  have effect := (Process.node_effect plain internal permitted.1 stepped).1
  generalize after.node = node at effect backed bottom applied ⊢
  cases effect with
  | idle idles silent =>
    obtain ⟨_, _, _, _, rfl⟩ := idles
    obtain ⟨whole, replica, counterpart⟩ := condensed.counterpart
    refine .here ⟨⟨⟨whole, replica, ?_⟩, ?_, condensed.progress, backed⟩, id⟩
    · exact counterpart.frame ⟨rfl, rfl, rfl, rfl, rfl⟩ ⟨rfl, rfl, rfl, rfl, rfl⟩
    · exact { condensed.compaction with
        bottom := bottom
        applied := applied (Nat.le_refl _) }
  | heartbeat =>
    obtain ⟨sent, same⟩ := RaftNode.heartbeatTick_of_quorum (permitted.2 rfl)
    rw [same] at backed ⊢
    exact .here ⟨condensed.retains sound ⟨rfl, rfl, rfl, rfl, rfl⟩ ⟨rfl, rfl, rfl⟩ rfl backed, id⟩
  | submit op =>
    by_cases leads : process.node.state = .leader
    · refine (condensed.submit sound leads _ backed).weaken fun _ submitted => ⟨submitted.2, ?_⟩
      simp [RaftNode.submit, leads, RaftNode.persist, RaftNode.write]
    · have refused : (process.node.submit (deployment.codec.encodeOp op)).1 = process.node := by
        simp [RaftNode.submit, leads]
      rw [refused]
      exact .here ⟨condensed, id⟩
  | takeSnapshot data saved holding =>
    refine (condensed.takeSnapshot sound data saved backed).weaken fun _ taken => ⟨taken, ?_⟩
    rcases process.node.takeSnapshot_cases data saved with same | ⟨_, _, built⟩
    · rw [same]
      exact id
    · rw [built]
      exact id

end Condensed

omit [DecidableEq ι] in
theorem Dispatch.reply {rpc : AppendRpc ι} (dispatch : Dispatch deployment archive rpc)
    {phase : Phase AppendEntriesReply}
    (acked : ∀ reply, phase = .replied reply → reply.success = true →
      ∀ j, deployment.addr j = rpc.peer →
        archive.Reached rpc.term j (rpc.args.prevLogIndex + rpc.args.entries.length)) :
    Dispatch deployment archive (rpc.setPhase phase) :=
  ⟨dispatch.shipment, acked⟩

omit [DecidableEq ι] in
theorem Transfer.reply {rpc : InstallRpc ι} (transfer : Transfer deployment archive rpc)
    {phase : Phase InstallSnapshotReply}
    (acked : ∀ reply, phase = .replied reply → reply.term ≤ rpc.term →
      ∀ j, deployment.addr j = rpc.peer → rpc.args.lastIncludedIndex ≤ archive.covered j) :
    Transfer deployment archive (rpc.setPhase phase) :=
  { transfer with acked := acked }

variable {process : Process} {now : Nat}

theorem condensed_serveAppend (mesh : deployment.FullMesh) (sound : Consensus.Sound archive.history)
    (condensed : Condensed deployment archive i process.elections process.node) {rpc : AppendRpc ι}
    (dispatch : Dispatch deployment archive rpc) (routed : deployment.addr i = rpc.peer) :
    (condensedContract deployment).Reaches archive i fun next =>
      Condensed deployment next i process.elections
        (process.node.handleAppendEntries now rpc.args).1 ∧
      Dispatch deployment next
        (rpc.setPhase (.replied (process.node.handleAppendEntries now rpc.args).2)) := by
  have backed := Process.backed_step condensed.backed
    (rfl : process.step deployment.codec now (.appendEntries rpc.args) = some _)
  have shipment := dispatch.shipment
  rcases process.node.handleAppendEntries_cases now rpc.args with
    ⟨_, same, failed⟩ | ⟨current, outcome⟩
  · refine .here ⟨by rw [same]; exact condensed, dispatch.reply ?_⟩
    rintro reply ⟨rfl⟩ success
    cases failed.symm.trans success
  · have term : rpc.args.term = rpc.term := shipment.term
    obtain ⟨middle, first, sound', observed⟩ :=
      condensed.observeLeader sound (term ▸ shipment.led)
    have dispatch' : Dispatch deployment middle rpc := first.append sound dispatch
    have contacted : Condensed deployment middle i process.elections
        ((process.node.observeLeader rpc.args.term).contacted now rpc.args.leaderID) :=
      observed.retains sound' ⟨rfl, rfl, rfl, rfl, rfl⟩ ⟨rfl, rfl, rfl⟩ rfl
        (observed.backed.persists (.rests rfl rfl rfl))
    rcases outcome with ⟨refused, failed⟩ | ⟨agrees, accepted⟩
    · refine ⟨middle, first, by rw [refused]; exact contacted, dispatch'.reply ?_⟩
      rintro reply ⟨rfl⟩ success
      cases failed.symm.trans success
    · simp only [Process.withNode, accepted] at backed
      obtain ⟨next, second, accepting, reached⟩ := contacted.acceptEntries sound' dispatch'.shipment
        (current.trans term) agrees backed
      have path : (condensedContract deployment).Path i archive next := first.trans second
      have later : Dispatch deployment next rpc := path.append sound dispatch
      refine ⟨next, path, by rw [accepted]; exact accepting, later.reply ?_⟩
      intro _ _ _ j addressed
      have same := mesh.addr_injective j i (addressed.trans routed.symm)
      subst same
      exact reached

theorem condensed_resumeAppend (mesh : deployment.FullMesh)
    (sound : Consensus.Sound archive.history)
    (condensed : Condensed deployment archive i process.elections process.node)
    (peers : process.node.peers = (deployment.config i).peers) {rpc : AppendRpc ι}
    (dispatch : Dispatch deployment archive rpc) {reply : AppendEntriesReply}
    (replied : rpc.phase = .replied reply) :
    (condensedContract deployment).Reaches archive i fun next =>
      Condensed deployment next i process.elections
        (process.node.handleAppendReply now rpc.peer rpc.term rpc.args reply) := by
  rcases process.node.handleAppendReply_cases now rpc.peer rpc.term rpc.args reply with
    ⟨term, stepped⟩ | ⟨leads, current, recorded⟩
  · rw [stepped]
    exact (condensed.stepDown sound term).weaken fun _ reached => reached.2
  · rw [recorded]
    refine .here (condensed.recordReply mesh sound peers leads ?_ now)
    intro success
    rw [current]
    exact dispatch.acked reply replied success

/-- An `InstallSnapshot` request arrives. Whoever answers it in its term covers the
snapshot, provided the file could be saved. -/
theorem condensed_serveInstall (sound : Consensus.Sound archive.history)
    (condensed : Condensed deployment archive i process.elections process.node)
    {rpc : InstallRpc ι} (transfer : Transfer deployment archive rpc) (saved : Bool) :
    (condensedContract deployment).Reaches archive i fun next =>
      Condensed deployment next i process.elections
        (process.node.handleInstallSnapshot rpc.args saved).1 ∧
      (saved = true → (process.node.handleInstallSnapshot rpc.args saved).2.term ≤ rpc.term →
        rpc.args.lastIncludedIndex ≤ next.covered i) := by
  have backed := Process.backed_step condensed.backed
    (rfl : process.step deployment.codec 0 (.installSnapshot rpc.args saved) = some _)
  obtain ⟨middle, first, sound', observed⟩ := condensed.stepDown sound rpc.args.term
  have covers : process.node.log.snapshotIndex = middle.covered i := by
    rw [observed.compaction.covered, RaftNode.log_stepDown]
  rcases process.node.handleInstallSnapshot_outcome rpc.args saved with
    ⟨relieved, covered⟩ | ⟨_, current, ahead, installed⟩
  · rw [transfer.term, covers] at covered
    refine ⟨middle, first, ?_, covered⟩
    simp only [Process.withNode] at backed
    generalize (process.node.handleInstallSnapshot rpc.args saved).1 = after at relieved backed ⊢
    cases relieved with
    | stale => exact observed
    | current =>
      exact observed.retains sound' ⟨rfl, rfl, rfl, rfl, rfl⟩ ⟨rfl, rfl, rfl⟩ rfl backed
  · simp only [Process.withNode, installed] at backed
    have relieved : Condensed deployment middle i process.elections (RaftNode.notifyHeartbeat
        { process.node.stepDown rpc.args.term with leaderID := rpc.args.leaderID }) :=
      observed.retains sound' ⟨rfl, rfl, rfl, rfl, rfl⟩ ⟨rfl, rfl, rfl⟩ rfl
        (observed.backed.persists (.rests rfl rfl rfl))
    have transfer' : Transfer deployment middle rpc := first.install sound transfer
    obtain ⟨next, second, installer, covered⟩ := relieved.installSnapshot sound' transfer'
      (current.trans transfer.term) (by rwa [← RaftNode.log_stepDown] at ahead) _ backed
    refine ⟨next, first.trans second, by rw [installed]; exact installer, fun _ _ => covered.ge⟩

theorem condensed_resumeInstall (sound : Consensus.Sound archive.history)
    (condensed : Condensed deployment archive i process.elections process.node)
    {rpc : InstallRpc ι} (transfer : Transfer deployment archive rpc) {reply : InstallSnapshotReply}
    (replied : rpc.phase = .replied reply) :
    (condensedContract deployment).Reaches archive i fun next =>
      Condensed deployment next i process.elections
        (process.node.handleInstallReply rpc.peer rpc.term rpc.args reply) := by
  by_cases later : reply.term > process.node.currentTerm
  · have stepped : process.node.handleInstallReply rpc.peer rpc.term rpc.args reply =
        process.node.stepDown reply.term := by
      rw [RaftNode.handleInstallReply, if_pos later, RaftNode.stepDown_of_lt later]
    rw [stepped]
    exact (condensed.stepDown sound reply.term).weaken fun _ reached => reached.2
  · rcases process.node.handleInstallReply_cases rpc.peer rpc.term rpc.args reply with
      ⟨term, stepped⟩ | ⟨leads, current, advanced⟩
    · rw [stepped]
      exact (condensed.stepDown sound term).weaken fun _ reached => reached.2
    · rw [advanced]
      refine .here (condensed.advanceMatch sound fun _ j routed => .inr ⟨?_, ?_⟩)
      · exact transfer.acked reply replied (current ▸ Nat.le_of_not_lt later) j routed
      · exact current ▸ transfer.decided

/-- A crash inside an operation: the files hold the memory as it was after the term check
of a handler, or a snapshot has been saved and they hold the memory at the end. -/
theorem condensed_interrupt (sound : Consensus.Sound archive.history)
    (condensed : Condensed deployment archive i process.elections process.node) {cfg : Config}
    (plain : process.node.Plain cfg) {input : Input}
    (permitted : input.isInternal = true → LeadersHearQuorum now process input)
    (installs : ∀ args saved, input = .installSnapshot args saved →
      ∃ rpc, Transfer deployment archive rpc ∧ rpc.args = args)
    {reached : Process} (stepped : process.step deployment.codec now input = some reached)
    {disk : Disk} (member : disk ∈ process.node.passing reached.node) :
    (condensedContract deployment).Reaches archive i fun next =>
      Condensed deployment next i 0 (boot (deployment.config i) disk) := by
  rcases Process.backs_passing condensed.backed stepped member with middle | ⟨compacting, last⟩
  · obtain ⟨term, same⟩ := process.midpoint_memory input
    rw [same] at middle
    exact (condensed.stepDown sound term).weaken fun _ stepped => stepped.2.restart _ middle
  · rcases compacting with ⟨args, saved, rfl, _⟩ | ⟨data, saved, rfl, holding⟩
    · obtain ⟨rpc, transfer, rfl⟩ := installs args saved rfl
      cases stepped
      exact (condensed_serveInstall sound condensed transfer saved).weaken
        fun _ installed => installed.1.restart _ last
    · exact (condensed.internal sound plain rfl (permitted rfl) stepped).weaken
        fun _ taken => taken.1.restart _ last

theorem condensed_kept (mesh : deployment.FullMesh) :
    (condensedContract deployment).Kept deployment (plainShape deployment) LeadersHearQuorum
      (· = true) where
  internal := by
    intro archive i now process input after at' internal permitted stepped
    have elections := (Process.node_effect at'.base internal permitted.1 stepped).2.2
    obtain ⟨next, path, condensed, leading⟩ :=
      Condensed.internal at'.process at'.sound at'.base internal permitted stepped
    refine ⟨next, path, ?_, ?_⟩
    · rw [← elections] at condensed
      exact condensed
    · intro out sending
      obtain ⟨leads, _, sent⟩ := Process.outgoing_cases sending stepped
      exact condensed.sends (path.sound at'.sound) (leading leads) process.boots out sent
  startPreVote at' := ⟨at'.process,
    by simp [condensedContract, Poll.start, RaftNode.preVoteArgs]⟩
  startElection at' waiting := by
    obtain ⟨condensed, canvass⟩ := Condensed.startElection at'.process at'.sound waiting
    exact ⟨condensed, fun _ => canvass⟩
  serveVote at' plain canvass found :=
    condensed_serveVote mesh at'.sound at'.process plain.2 canvass found
  resumePreVote _ _ _ probe _ real := by simp [probe] at real
  becomeCandidate := by
    intro archive process poll after now _ at' canvass probe stepped
    simp only [Process.step] at stepped
    split at stepped <;> cases stepped
    · obtain ⟨next, path, candidate⟩ := Condensed.becomeCandidate at'.process at'.sound at'.base.id
      exact ⟨next, path, candidate, fun real => by simp [probe] at real⟩
    · exact .here ⟨at'.process, fun real => by simp [probe] at real⟩
  resumeVote plain at' canvass real _ found := by
    obtain ⟨next, path, condensed, polled⟩ := condensed_resumeVote mesh at'.sound at'.process
      at'.base.peers plain.1 (canvass real) real found
    exact ⟨next, path, condensed, fun _ => polled⟩
  serveAppend at' _ dispatch _ routed :=
    condensed_serveAppend mesh at'.sound at'.process dispatch routed
  resumeAppend _ at' dispatch replied _ := by
    obtain ⟨next, path, condensed⟩ := condensed_resumeAppend mesh at'.sound at'.process
      at'.base.peers dispatch replied
    exact ⟨next, path, condensed, Dispatch.reply (path.append at'.sound dispatch) (by simp)⟩
  serveInstall := by
    intro archive i process rpc saved saves at' _ transfer _ routed
    obtain ⟨next, path, condensed, covered⟩ :=
      condensed_serveInstall at'.sound at'.process transfer saved
    refine ⟨next, path, condensed, Transfer.reply (path.install at'.sound transfer) ?_⟩
    rintro reply ⟨rfl⟩ current j addressed
    have same := mesh.addr_injective j i (addressed.trans routed.symm)
    subst same
    exact covered saves current
  resumeInstall _ at' transfer replied _ := by
    obtain ⟨next, path, condensed⟩ :=
      condensed_resumeInstall at'.sound at'.process transfer replied
    exact ⟨next, path, condensed, Transfer.reply (path.install at'.sound transfer) (by simp)⟩
  restart at' := Condensed.restart at'.process _ at'.process.backed
  interrupt := by
    intro archive i now process input after disk at' permitted _ installs stepped member
    refine condensed_interrupt at'.sound at'.process at'.base permitted ?_ stepped member
    intro args saved request
    obtain ⟨rpc, _, transfer, same⟩ := installs args saved request
    exact ⟨rpc, transfer, same⟩

def Archive.initial : Archive ι := ⟨.initial, fun _ => 0⟩

theorem condensed_initial :
    (condensedContract deployment).Related .initial deployment.initial := by
  obtain ⟨sound, holds⟩ := @consensus_initial ι _ deployment _
  refine ⟨sound, fun i => ?_, holds.poll, nofun, nofun⟩
  exact {
    counterpart := ⟨_, (holds.process i).1, rfl, rfl, rfl, rfl, .inl rfl⟩
    compaction := {
      covered := rfl
      log := rfl
      within := Nat.le_refl _
      decided := .inl rfl
      marker := fun positive => absurd positive (Nat.lt_irrefl _)
      bottom := Nat.le_refl _
      applied := Nat.le_refl _
      committed := .inl (.inl rfl) }
    progress := fun leads => by cases leads
    backed := Disk.Backs.empty.boot _ }

end RaftGo
