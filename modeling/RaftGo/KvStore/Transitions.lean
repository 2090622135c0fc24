import RaftGo.KvStore.Process
import RaftGo.Raft.Journal
import RaftGo.Raft.Parts

/-! What the goroutines of a process can do, by name: the transitions of the
apply loop, of `readApplyCh` and of client calls, and what a crash in the middle
of any input leaves on disk. -/

namespace RaftGo.KvStore

open Raft

/-- What an input touches of the node. The apply loop goes its own way. -/
def Input.parts : Input → List RaftNode.Part
  | .requestVote _ | .becomeCandidate | .heartbeat | .resetTimer => [.role]
  | .appendEntries _ => [.role, .merge, .commit]
  | .installSnapshot _ _ => [.role, .installation]
  | .voteReply _ _ _ _ => [.role, .election]
  | .appendReply _ _ _ _ => [.role, .tracking, .commit]
  | .installReply _ _ _ _ => [.role, .tracking]
  | .readApplyCh _ => [.compaction]
  | .call _ | .removePeer _ => [.role, .append]
  | .addPeer _ => [.role, .append, .peers, .tracking]
  | _ => []

namespace Process

variable (codec : Codec) (now : Nat) (process : Process)

inductive ApplyTransition : Process → Prop where
  | receiveSnapshot (snap : SnapshotToApply) (idle : process.loop = .select)
      (ready : process.node.snapshotNotifyC = some snap) :
      ApplyTransition { process with
        node := { process.node with snapshotNotifyC := none }
        loop := .restore snap }
  | receiveCommit (idle : process.loop = .select) (ready : process.node.commitNotifyC = true) :
      ApplyTransition { process with
        node := { process.node with commitNotifyC := false }
        loop := .relock }
  | restore (snap : SnapshotToApply) (holding : process.loop = .restore snap) :
      ApplyTransition { process with
        data := KvStore.restore codec process.data snap.data
        loop := .deliver (.snapshot snap.index snap.term snap.data) }
  | drained (locked : process.loop = .relock)
      (done : process.node.commitIndex ≤ process.node.lastApplied) :
      ApplyTransition { process with loop := .select }
  | configure (locked : process.loop = .relock)
      (behind : process.node.lastApplied < process.node.commitIndex)
      (config : (process.node.log.get (process.node.lastApplied + 1)).isConfig = true) :
      ApplyTransition { process with
        node := RaftNode.applyConfigEntry
          { process.node with lastApplied := process.node.lastApplied + 1 } now
          (process.node.log.get (process.node.lastApplied + 1))
        loop := .relock }
  | take (locked : process.loop = .relock)
      (behind : process.node.lastApplied < process.node.commitIndex)
      (command : (process.node.log.get (process.node.lastApplied + 1)).isConfig = false) :
      ApplyTransition { process with
        node := { process.node with lastApplied := process.node.lastApplied + 1 }
        loop := .apply (process.node.log.get (process.node.lastApplied + 1)) }
  | apply (entry : LogEntry) (holding : process.loop = .apply entry) :
      ApplyTransition { process with
        data := (KvStore.apply codec process.data entry.command).1
        loop := .deliver (.entry entry.index entry.term entry.command
          (KvStore.apply codec process.data entry.command).2) }
  | deliver (msg : ApplyMsg) (blocked : process.loop = .deliver msg)
      (room : process.applyCh.length < applyChCapacity) :
      ApplyTransition { process with
        applyCh := process.applyCh ++ [msg]
        loop := if msg.isSnapshot then .select else .relock }

/-- `saved` says whether a snapshot file can be written. -/
inductive ReadTransition (saved : Bool) : Process → Prop where
  | receive (msg : ApplyMsg) (rest : List ApplyMsg) (idle : process.reader = .receive)
      (ready : process.applyCh = msg :: rest) :
      ReadTransition saved { process with applyCh := rest, reader := .route msg }
  | routeSnapshot (index term : Nat) (data : Bytes)
      (holding : process.reader = .route (.snapshot index term data)) :
      ReadTransition saved { process.failAllPending with applied := index, reader := .receive }
  | routeEntry (index term : Nat) (command : Bytes) (result : ApplyResult) (reader : Reader)
      (holding : process.reader = .route (.entry index term command result))
      (next : reader = .receive ∨ reader = .capture) :
      ReadTransition saved { Process.routeEntry { process with applied := process.applied + 1 }
        index term result with reader := reader }
  | capture (due : process.reader = .capture) :
      ReadTransition saved { process with reader := .take (codec.encodeData process.data) }
  | take (data : Bytes) (holding : process.reader = .take data) :
      ReadTransition saved { process with
        node := process.node.takeSnapshot data saved
        reader := .receive }

variable {codec} {now} {process} {after : Process}

theorem applyLoop_cases {branch : Branch}
    (stepped : process.applyLoop codec now branch = some after) :
    ApplyTransition codec now process after := by
  cases place : process.loop with
  | select =>
    cases branch with
    | snapshot =>
      simp only [applyLoop, place, Option.map_eq_some_iff] at stepped
      obtain ⟨snap, ready, rfl⟩ := stepped
      exact .receiveSnapshot snap place ready
    | commit =>
      simp only [applyLoop, place] at stepped
      split at stepped
      · rename_i ready
        cases stepped
        exact .receiveCommit place ready
      · cases stepped
  | restore snap =>
    simp only [applyLoop, place, Option.some.injEq] at stepped
    exact stepped ▸ .restore snap place
  | relock =>
    simp only [applyLoop, place, takeEntry, Option.some.injEq] at stepped
    subst stepped
    split
    · rename_i behind
      split
      · rename_i config
        exact .configure place behind config
      · rename_i command
        exact .take place behind (by simpa using command)
    · rename_i done
      exact .drained place (Nat.le_of_not_lt done)
  | apply entry =>
    simp only [applyLoop, place, Option.some.injEq] at stepped
    exact stepped ▸ .apply entry place
  | deliver msg =>
    simp only [applyLoop, place] at stepped
    split at stepped
    · rename_i room
      cases stepped
      exact .deliver msg place room
    · cases stepped

theorem readApplyCh_cases {saved : Bool} (stepped : process.readApplyCh codec saved = some after) :
    ReadTransition codec process saved after := by
  unfold readApplyCh at stepped
  split at stepped
  · rename_i idle
    split at stepped
    · cases stepped
    · rename_i msg rest ready
      cases stepped
      exact .receive msg rest idle ready
  · rename_i index term data holding
    cases stepped
    exact .routeSnapshot index term data holding
  · rename_i index term command result holding
    cases stepped
    exact .routeEntry index term command result _ holding (by split <;> simp)
  · rename_i due
    cases stepped
    exact .capture due
  · rename_i data holding
    cases stepped
    exact .take data holding

theorem routeEntry_eq (process : Process) (index term : Nat) (result : ApplyResult) :
    ∃ pending calls, process.routeEntry index term result =
      { process with pending := pending, calls := calls } := by
  unfold routeEntry
  split
  · exact ⟨_, _, rfl⟩
  · dsimp only
    split <;> exact ⟨_, _, rfl⟩

@[simp] theorem routeEntry_frame (process : Process) (index term : Nat) (result : ApplyResult) :
    (process.routeEntry index term result).node = process.node ∧
      (process.routeEntry index term result).boots = process.boots ∧
      (process.routeEntry index term result).elections = process.elections := by
  obtain ⟨pending, calls, routed⟩ := process.routeEntry_eq index term result
  simp [routed]

theorem startCall_node (process : Process) (codec : Codec) (op : Op) :
    (process.startCall codec op).node = (process.node.submit (codec.encodeOp op)).1 ∧
      (process.startCall codec op).boots = process.boots ∧
      (process.startCall codec op).elections = process.elections := by
  unfold startCall RaftNode.submit
  by_cases follows : process.node.state ≠ .leader <;> simp [follows]

/-- The entry a leader appends for a command. -/
def nextEntry (process : Process) (command : Bytes) : LogEntry where
  term := process.node.currentTerm
  index := process.node.log.lastIndex + 1
  command := command

theorem startCall_cases (process : Process) (codec : Codec) (op : Op) :
    (process.node.state ≠ .leader ∧ process.startCall codec op = { process with
      calls := process.calls ++
        [{ op, index := 0, term := 0, state := .returned (.error .notLeader) }] }) ∨
    (process.node.state = .leader ∧ process.startCall codec op = { process with
      node := RaftNode.persist { process.node with
        log := process.node.log.append [process.nextEntry (codec.encodeOp op)] }
      calls := process.calls ++ [{
        op := op
        index := process.node.log.lastIndex + 1
        term := process.node.currentTerm
        state := .submitted }] }) := by
  unfold startCall RaftNode.submit
  by_cases leads : process.node.state = .leader
  · refine .inr ⟨leads, ?_⟩
    simp only [leads, ne_eq, not_true_eq_false, ↓reduceIte]
    rfl
  · refine .inl ⟨leads, ?_⟩
    simp only [ne_eq, leads, not_false_eq_true, ↓reduceIte]

theorem registerCall_cases {caller : Nat} (stepped : process.registerCall caller = some after) :
    ∃ call, process.calls[caller]? = some call ∧ call.state = .submitted ∧
      after = { process with
        pending := Function.update process.pending call.index (some ⟨call.term, caller⟩)
        calls := process.calls.set caller { call with state := .waiting } } := by
  unfold registerCall at stepped
  split at stepped
  · rename_i call found
    split at stepped
    · rename_i submitted
      exact ⟨call, found, submitted, (Option.some.inj stepped).symm⟩
    · cases stepped
  · cases stepped

theorem finishCall_cases {caller : Nat} (stepped : process.finishCall caller = some after) :
    ∃ call result outcome, process.calls[caller]? = some call ∧ call.state = .waiting ∧
      call.inbox = some result ∧
      outcome = (match result.err with
        | none => Except.ok result.value
        | some err => .error err) ∧
      after = { process with
        calls := process.calls.set caller { call with
          state := .returned outcome
          inbox := none } } := by
  unfold finishCall at stepped
  split at stepped
  · rename_i call found
    split at stepped
    · rename_i result waiting answered
      exact ⟨call, result, _, found, waiting, answered, rfl, (Option.some.inj stepped).symm⟩
    · cases stepped
  · cases stepped

theorem timeOutCall_cases {caller : Nat} (stepped : process.timeOutCall caller = some after) :
    ∃ call, process.calls[caller]? = some call ∧ call.state = .waiting ∧
      after = { process with
        pending := Function.update process.pending call.index none
        calls := process.calls.set caller { call with state := .returned (.error .timeout) } } := by
  unfold timeOutCall at stepped
  split at stepped
  · rename_i call found
    split at stepped
    · rename_i waiting
      exact ⟨call, found, waiting, (Option.some.inj stepped).symm⟩
    · cases stepped
  · cases stepped

variable (codec now process) in
/-- What an input does to the node of a process. -/
inductive NodeStep : Input → RaftNode → Prop where
  | idle (input : Input) : NodeStep input process.node
  | requestVote (args : RequestVoteArgs) :
      NodeStep (.requestVote args) (process.node.handleRequestVote now args).1
  | appendEntries (args : AppendEntriesArgs) :
      NodeStep (.appendEntries args) (process.node.handleAppendEntries now args).1
  | installSnapshot (args : InstallSnapshotArgs) (saved : Bool) :
      NodeStep (.installSnapshot args saved) (process.node.handleInstallSnapshot args saved).1
  | voteReply (term votes majority : Nat) (reply : RequestVoteReply) :
      NodeStep (.voteReply term votes majority reply)
        (process.node.handleVoteReply now term votes majority reply).1
  | appendReply (peer : String) (term : Nat) (args : AppendEntriesArgs)
      (reply : AppendEntriesReply) : NodeStep (.appendReply peer term args reply)
        (process.node.handleAppendReply now peer term args reply)
  | installReply (peer : String) (term : Nat) (args : InstallSnapshotArgs)
      (reply : InstallSnapshotReply) : NodeStep (.installReply peer term args reply)
        (process.node.handleInstallReply peer term args reply)
  | becomeCandidate (eligible : process.node.eligible = true) :
      NodeStep .becomeCandidate process.node.becomeCandidate
  | heartbeat : NodeStep .heartbeat (process.node.heartbeatTick now).1
  | resetTimer : NodeStep .resetTimer { process.node with heartbeatC := false }
  /-- at the outer `select` of the apply loop -/
  | receive (branch : Branch) (snap : Option SnapshotToApply) (signal : Bool) :
      NodeStep (.applyLoop branch)
        { process.node with snapshotNotifyC := snap, commitNotifyC := signal }
  | configure (branch : Branch) (locked : process.loop = .relock)
      (behind : process.node.lastApplied < process.node.commitIndex) :
      NodeStep (.applyLoop branch) (RaftNode.applyConfigEntry
        { process.node with lastApplied := process.node.lastApplied + 1 } now
        (process.node.log.get (process.node.lastApplied + 1)))
  | takeEntry (branch : Branch) (locked : process.loop = .relock)
      (behind : process.node.lastApplied < process.node.commitIndex) :
      NodeStep (.applyLoop branch)
        { process.node with lastApplied := process.node.lastApplied + 1 }
  | takeSnapshot (data : Bytes) (saved : Bool) (holding : process.reader = .take data) :
      NodeStep (.readApplyCh saved) (process.node.takeSnapshot data saved)
  | submit (op : Op) : NodeStep (.call op) (process.node.submit (codec.encodeOp op)).1
  | addPeer (rpcAddr : String) : NodeStep (.addPeer rpcAddr) (process.node.addPeer now rpcAddr).1
  | removePeer (rpcAddr : String) :
      NodeStep (.removePeer rpcAddr) (process.node.removePeer now rpcAddr).1

theorem nodeStep_applyLoop {branch : Branch} (moved : ApplyTransition codec now process after) :
    NodeStep codec now process (.applyLoop branch) after.node := by
  cases moved with
  | receiveSnapshot | receiveCommit => exact .receive ..
  | configure locked behind => exact .configure branch locked behind
  | take locked behind => exact .takeEntry branch locked behind
  | _ => exact .idle _

theorem nodeStep_readApplyCh {saved : Bool} (moved : ReadTransition codec process saved after) :
    NodeStep codec now process (.readApplyCh saved) after.node := by
  cases moved with
  | take data holding => exact .takeSnapshot data saved holding
  | routeEntry index term command result =>
    have frame := routeEntry_frame { process with applied := process.applied + 1 } index term result
    rw [frame.1]
    exact .idle _
  | _ => exact .idle _

theorem nodeStep_of_step {input : Input} (stepped : process.step codec now input = some after) :
    NodeStep codec now process input after.node := by
  cases input with
  | electionTimeout =>
    simp only [step] at stepped
    split at stepped <;> cases stepped <;> exact .idle _
  | startPreVote =>
    obtain ⟨_, rfl⟩ := step_startPreVote stepped
    exact .idle _
  | becomeCandidate =>
    simp only [step] at stepped
    split at stepped <;> cases stepped
    · rename_i eligible
      exact .becomeCandidate eligible
    · exact .idle _
  | startElection =>
    obtain ⟨_, rfl⟩ := step_startElection stepped
    exact .idle _
  | resetTimer =>
    simp only [step] at stepped
    split at stepped <;> cases stepped
    exact .resetTimer
  | applyLoop branch => exact nodeStep_applyLoop (applyLoop_cases stepped)
  | readApplyCh saved => exact nodeStep_readApplyCh (readApplyCh_cases stepped)
  | call op =>
    cases stepped
    rw [(startCall_node process codec op).1]
    exact .submit op
  | registerCall caller =>
    obtain ⟨call, _, _, rfl⟩ := registerCall_cases stepped
    exact .idle _
  | finishCall caller =>
    obtain ⟨call, result, outcome, _, _, _, _, rfl⟩ := finishCall_cases stepped
    exact .idle _
  | timeOutCall caller =>
    obtain ⟨call, _, _, rfl⟩ := timeOutCall_cases stepped
    exact .idle _
  | _ =>
    cases stepped
    constructor

theorem changes_step {input : Input} (elsewhere : ∀ branch, input ≠ .applyLoop branch)
    (stepped : process.step codec now input = some after) :
    RaftNode.Changes now input.parts process.node after.node := by
  have moved := nodeStep_of_step stepped
  generalize after.node = node at moved ⊢
  cases moved with
  | idle => exact .refl process.node
  | requestVote args => exact .handleRequestVote process.node args
  | appendEntries args => exact .handleAppendEntries process.node args
  | installSnapshot args saved => exact .handleInstallSnapshot process.node args saved
  | voteReply term votes majority reply =>
    exact .handleVoteReply process.node term votes majority reply
  | appendReply peer term args reply => exact .handleAppendReply process.node peer term args reply
  | installReply peer term args reply =>
    exact .handleInstallReply process.node peer term args reply
  | becomeCandidate => exact .change .becomeCandidate (by simp [Input.parts])
  | heartbeat => exact .heartbeatTick process.node
  | resetTimer => exact .change .resetTimer (by simp [Input.parts])
  | receive branch | configure branch | takeEntry branch => exact absurd rfl (elsewhere branch)
  | takeSnapshot data saved => exact .takeSnapshot process.node data saved
  | submit op => exact .submit process.node _
  | addPeer rpcAddr => exact .addPeer process.node rpcAddr
  | removePeer rpcAddr => exact .removePeer process.node rpcAddr

theorem ApplyTransition.persists (moved : ApplyTransition codec now process after) :
    process.node.Persists after.node := by
  cases moved with
  | configure locked behind config =>
    cases RaftNode.persists_applyConfigEntry now
      (process.node.log.get (process.node.lastApplied + 1)) with
    | rests memory disk journal => exact .rests memory disk journal
    | saves marker disk journal => exact .saves marker disk journal
  | _ => exact .rests rfl rfl rfl

/-- The node after the term check at the head of a handler, where the handler may
have persisted once already. -/
def midpoint (process : Process) : Input → RaftNode
  | .requestVote args =>
    if args.isPreVote then process.node else process.node.stepDown args.term
  | .appendEntries args => process.node.observeLeader args.term
  | .installSnapshot args _ => process.node.stepDown args.term
  | _ => process.node

theorem midpoint_cases (process : Process) (input : Input) : ∃ term,
    process.midpoint input = process.node.stepDown term ∨
      process.midpoint input = process.node.observeLeader term := by
  have same : process.node.stepDown 0 = process.node := RaftNode.stepDown_of_le (Nat.zero_le _)
  cases input with
  | requestVote args =>
    by_cases probe : args.isPreVote = true
    · exact ⟨0, .inl (by simp [midpoint, probe, same])⟩
    · exact ⟨args.term, .inl (by simp [midpoint, probe])⟩
  | appendEntries args => exact ⟨args.term, .inr rfl⟩
  | installSnapshot args saved => exact ⟨args.term, .inl rfl⟩
  | _ => exact ⟨0, .inl same.symm⟩

theorem log_midpoint (process : Process) (input : Input) :
    (process.midpoint input).log = process.node.log := by
  obtain ⟨term, stepped | observed⟩ := process.midpoint_cases input
  · rw [stepped, RaftNode.log_stepDown]
  · rw [observed, RaftNode.log_observeLeader]

theorem midpoint_memory (process : Process) (input : Input) :
    ∃ term, (process.midpoint input).memory = (process.node.stepDown term).memory := by
  obtain ⟨term, stepped | observed⟩ := process.midpoint_cases input
  · exact ⟨term, congrArg RaftNode.memory stepped⟩
  · refine ⟨term, ?_⟩
    rw [observed]
    rcases process.node.observeLeader_cases term with same | ⟨current, _, conceded⟩
    · rw [same]
    · rw [conceded, RaftNode.stepDown_of_le (Nat.le_of_eq current)]
      rfl

theorem persists_midpoint (process : Process) (input : Input) :
    process.node.Persists (process.midpoint input) := by
  obtain ⟨term, stepped | observed⟩ := process.midpoint_cases input
  · rw [stepped]
    exact RaftNode.persists_stepDown term
  · rw [observed]
    exact RaftNode.persists_observeLeader term

theorem torn_midpoint (process : Process) (input : Input) :
    process.node.Torn (process.midpoint input).disk := by
  obtain ⟨term, stepped | observed⟩ := process.midpoint_cases input
  · rw [stepped]
    exact RaftNode.torn_stepDown process.node term
  · rw [observed]
    exact RaftNode.torn_observeLeader process.node term

/-- The input saves a snapshot file. -/
def Compacting (process : Process) (input : Input) : Prop :=
  (∃ args saved, input = .installSnapshot args saved ∧
      process.node.log.snapshotIndex < args.lastIncludedIndex) ∨
    ∃ data saved, input = .readApplyCh saved ∧ process.reader = .take data

/-- From its midpoint on an input persists once, or saves a snapshot and compacts. -/
theorem staged_step {input : Input} (stepped : process.step codec now input = some after) :
    (process.midpoint input).Persists after.node ∨
      process.Compacting input ∧ ∃ file, (process.midpoint input).Compacts after.node file := by
  cases input with
  | requestVote args =>
    cases stepped
    exact .inl (process.node.persists_handleRequestVote now args)
  | appendEntries args =>
    cases stepped
    exact .inl (RaftNode.persists_handleAppendEntries now args)
  | installSnapshot args saved =>
    cases stepped
    rcases process.node.handleInstallSnapshot_stage args saved with persists | ⟨ahead, compacts⟩
    · exact .inl persists
    · exact .inr ⟨.inl ⟨args, saved, rfl, ahead⟩, _, compacts⟩
  | readApplyCh saved =>
    cases readApplyCh_cases stepped with
    | take data holding =>
      rcases process.node.takeSnapshot_stage data saved with persists | ⟨file, compacts⟩
      · exact .inl persists
      · exact .inr ⟨.inr ⟨data, saved, rfl, holding⟩, file, compacts⟩
    | routeEntry index term command result reader holding next =>
      obtain ⟨pending, calls, routed⟩ := routeEntry_eq
        { process with applied := process.applied + 1 } index term result
      rw [routed]
      exact .inl (.refl _)
    | _ => exact .inl (.refl _)
  | voteReply term votes majority reply =>
    cases stepped
    exact .inl (RaftNode.persists_handleVoteReply ..)
  | appendReply peer term args reply =>
    cases stepped
    exact .inl (RaftNode.persists_handleAppendReply ..)
  | installReply peer term args reply =>
    cases stepped
    exact .inl (RaftNode.persists_handleInstallReply ..)
  | electionTimeout =>
    simp only [step] at stepped
    split at stepped <;> cases stepped <;> exact .inl (.refl _)
  | startPreVote =>
    obtain ⟨_, rfl⟩ := step_startPreVote stepped
    exact .inl (.refl _)
  | becomeCandidate =>
    simp only [step] at stepped
    split at stepped <;> cases stepped
    · exact .inl (.saves rfl rfl rfl)
    · exact .inl (.refl _)
  | startElection =>
    obtain ⟨_, rfl⟩ := step_startElection stepped
    exact .inl (.refl _)
  | heartbeat =>
    cases stepped
    exact .inl (RaftNode.persists_heartbeatTick now)
  | resetTimer =>
    simp only [step] at stepped
    split at stepped <;> cases stepped
    exact .inl (.rests rfl rfl rfl)
  | applyLoop branch => exact .inl (applyLoop_cases stepped).persists
  | call op =>
    cases stepped
    rw [(startCall_node process codec op).1]
    exact .inl (RaftNode.persists_submit _)
  | registerCall caller =>
    obtain ⟨call, _, _, rfl⟩ := registerCall_cases stepped
    exact .inl (.refl _)
  | finishCall caller =>
    obtain ⟨call, result, outcome, _, _, _, _, rfl⟩ := finishCall_cases stepped
    exact .inl (.refl _)
  | timeOutCall caller =>
    obtain ⟨call, _, _, rfl⟩ := timeOutCall_cases stepped
    exact .inl (.refl _)
  | addPeer rpcAddr =>
    cases stepped
    exact .inl (RaftNode.persists_addPeer now rpcAddr)
  | removePeer rpcAddr =>
    cases stepped
    exact .inl (RaftNode.persists_removePeer now rpcAddr)

/-- A crash in the middle of an input finds the old state or a plain step down;
the snapshot file can differ only if the input saves one. -/
theorem torn_step {input : Input} {disk : Disk}
    (stepped : process.step codec now input = some after)
    (member : disk ∈ process.node.passing after.node) :
    process.node.Torn disk ∧
      (disk.snapshot = process.node.disk.snapshot ∨ process.Compacting input) := by
  have first := process.persists_midpoint input
  have torn := process.torn_midpoint input
  rcases staged_step stepped with second | ⟨compacting, file, second⟩
  · rw [RaftNode.passing_of_persists first second member]
    exact ⟨torn, .inl first.snapshot⟩
  · rcases RaftNode.passing_of_compacts first second member with rfl | rfl
    · exact ⟨torn, .inl first.snapshot⟩
    · exact ⟨torn, .inr compacting⟩

end Process

end RaftGo.KvStore
