import RaftGo.KvStore.Calls

/-! From `Apply` to the caller. The messages on the way from the apply loop to
`readApplyCh` form a queue; a call that returns without an error returns the result
of applying its own command. -/

namespace RaftGo.KvStore

open Raft Library

/-- The message `readApplyCh` has received and not routed yet. -/
def Reader.inHand : Reader → List ApplyMsg
  | .route msg => [msg]
  | _ => []

namespace Process

/-- The messages between the apply loop and the callers, oldest first. -/
def inTransit (process : Process) : List ApplyMsg :=
  process.reader.inHand ++ process.applyCh ++ process.loop.outbox

/-- The message an input makes of an entry passed to `Apply` or a snapshot passed to
`Restore`. -/
def made? (codec : Codec) (process : Process) : Input → Option ApplyMsg
  | .applyLoop _ => match process.loop with
    | .apply entry => some (.entry entry.index entry.term entry.command
        (apply codec process.data entry.command).2)
    | .restore snap => some (.snapshot snap.index snap.term snap.data)
    | _ => none
  | _ => none

/-- The message an input routes. -/
def consumed? (process : Process) : Input → Option ApplyMsg
  | .readApplyCh _ => match process.reader with
    | .route msg => some msg
    | _ => none
  | _ => none

variable {codec : Codec} {now : Nat} {process after : Process} {input : Input}

theorem reader_of_consumed? {msg : ApplyMsg} (consumed : process.consumed? input = some msg) :
    process.reader = .route msg := by
  cases input with
  | readApplyCh saved => cases place : process.reader <;> simp_all [consumed?]
  | _ => cases consumed

theorem mem_inTransit_of_consumed? {msg : ApplyMsg}
    (consumed : process.consumed? input = some msg) : msg ∈ process.inTransit := by
  simp [inTransit, reader_of_consumed? consumed, Reader.inHand]

/-- Messages are routed in the order in which they are made, and none is lost. -/
theorem inTransit_step (stepped : process.step codec now input = some after) :
    process.inTransit ++ (process.made? codec input).toList =
      (process.consumed? input).toList ++ after.inTransit := by
  cases kind : input.sidelines with
  | true =>
    have same := sidelined_step kind stepped
    have made : process.made? codec input = none := by
      cases input <;> simp_all [made?, Input.sidelines]
    have consumed : process.consumed? input = none := by
      cases input <;> simp_all [consumed?, Input.sidelines]
    simp [made, consumed, inTransit, same.reader, same.applyCh, same.loop]
  | false =>
    cases input with
    | applyLoop branch =>
      cases applyLoop_cases stepped with
      | receiveSnapshot snap idle ready =>
        simp [inTransit, made?, consumed?, idle, ApplyLoop.outbox]
      | receiveCommit idle ready => simp [inTransit, made?, consumed?, idle, ApplyLoop.outbox]
      | restore snap holding => simp [inTransit, made?, consumed?, holding, ApplyLoop.outbox]
      | drained locked done => simp [inTransit, made?, consumed?, locked, ApplyLoop.outbox]
      | configure locked behind config =>
        simp [inTransit, made?, consumed?, locked, ApplyLoop.outbox]
      | take locked behind command => simp [inTransit, made?, consumed?, locked, ApplyLoop.outbox]
      | apply entry holding => simp [inTransit, made?, consumed?, holding, ApplyLoop.outbox]
      | deliver msg blocked room =>
        cases msg.isSnapshot <;> simp [inTransit, made?, consumed?, blocked, ApplyLoop.outbox]
    | readApplyCh saved =>
      cases readApplyCh_cases stepped with
      | receive msg rest idle ready =>
        simp [inTransit, made?, consumed?, idle, ready, Reader.inHand]
      | routeSnapshot index term data holding =>
        simp [inTransit, made?, consumed?, holding, Reader.inHand, failAllPending]
      | routeEntry index term command result reader holding next =>
        obtain ⟨pending, calls, routed⟩ := routeEntry_eq
          { process with applied := process.applied + 1 } index term result
        rw [routed]
        rcases next with rfl | rfl <;>
          simp [inTransit, made?, consumed?, holding, Reader.inHand]
      | capture due => simp [inTransit, made?, consumed?, due, Reader.inHand]
      | take data holding => simp [inTransit, made?, consumed?, holding, Reader.inHand]
    | call op =>
      cases stepped
      rcases process.startCall_cases codec op with ⟨_, refused⟩ | ⟨_, accepted⟩
      · rw [refused]
        simp [inTransit, made?, consumed?]
      · rw [accepted]
        simp [inTransit, made?, consumed?]
    | registerCall caller =>
      obtain ⟨_, _, _, rfl⟩ := registerCall_cases stepped
      simp [inTransit, made?, consumed?]
    | finishCall caller =>
      obtain ⟨_, _, _, _, _, _, _, rfl⟩ := finishCall_cases stepped
      simp [inTransit, made?, consumed?]
    | timeOutCall caller =>
      obtain ⟨_, _, _, rfl⟩ := timeOutCall_cases stepped
      simp [inTransit, made?, consumed?]
    | _ => cases kind

end Process

/-- The commands in the log are those its index and term determine. -/
def Determines (command : Nat → Nat → Bytes) (process : Process) : Prop :=
  ∀ entry ∈ process.node.log.rest, entry.isConfig = false →
    entry.command = command entry.index entry.term

instance (command : Nat → Nat → Bytes) (process : Process) :
    Decidable (Determines command process) :=
  inferInstanceAs (Decidable (∀ entry ∈ process.node.log.rest, _))

/-- The run passed a command at an index and term to `Apply`, with this result. -/
def Applied (codec : Codec) (moves : List (Move Process (Nat × Input))) (index term : Nat)
    (command : Bytes) (result : ApplyResult) : Prop :=
  ∃ move ∈ moves, ∃ entry, move.before.applied? move.event.2 = some entry ∧
    entry.index = index ∧ entry.term = term ∧ entry.command = command ∧
    (apply codec move.before.data command).2 = result

theorem Applied.snoc {codec : Codec} {moves : List (Move Process (Nat × Input))}
    {index term : Nat} {command : Bytes} {result : ApplyResult}
    (applied : Applied codec moves index term command result)
    (move : Move Process (Nat × Input)) :
    Applied codec (moves ++ [move]) index term command result := by
  obtain ⟨earlier, member, rest⟩ := applied
  exact ⟨earlier, List.mem_append_left _ member, rest⟩

/-- A message reports what was applied; index zero is read outside the log only. -/
def Reported (codec : Codec) (command : Nat → Nat → Bytes)
    (moves : List (Move Process (Nat × Input))) : ApplyMsg → Prop
  | .entry index term bytes result => Applied codec moves index term bytes result ∧
      (index ≠ 0 → bytes = command index term)
  | .snapshot .. => True

theorem Reported.snoc {codec : Codec} {command : Nat → Nat → Bytes}
    {moves : List (Move Process (Nat × Input))} {msg : ApplyMsg}
    (reported : Reported codec command moves msg) (move : Move Process (Nat × Input)) :
    Reported codec command (moves ++ [move]) msg := by
  cases msg with
  | entry index term bytes result => exact ⟨reported.1.snoc move, reported.2⟩
  | snapshot => trivial

namespace Process

variable {codec : Codec} {now : Nat} {process after : Process} {input : Input} {caller : Nat}
  {result : ApplyResult}

/-- Only a message of the call's own index and term brings it a result without error. -/
theorem route_of_answer? (sent : process.answer? input caller = some result)
    (success : result.err = none) :
    ∃ index term command waiting, process.reader = .route (.entry index term command result) ∧
      process.pending index = some waiting ∧ waiting.caller = caller ∧ waiting.term = term := by
  cases answering_of_answer? sent with
  | entry saved index term command outcome waiting holding registered own =>
    by_cases stale : waiting.term ≠ term
    · rw [if_pos stale] at success
      cases success
    · rw [if_neg stale]
      exact ⟨index, term, command, waiting, holding, registered, own, not_not.mp stale⟩
  | snapshot => cases success

theorem held_step (stepped : process.step codec now input = some after) :
    process.loop.held ++ (process.taken? input).toList.filter (!·.isConfig) =
      (process.applied? input).toList ++ after.loop.held := by
  have resting (other : ∀ branch, input ≠ .applyLoop branch) (same : after.loop = process.loop) :
      process.loop.held ++ (process.taken? input).toList.filter (!·.isConfig) =
        (process.applied? input).toList ++ after.loop.held := by
    have silent : Silent process input := silent_of_other other
    simp [silent.taken, silent.applied, same]
  cases kind : input.background with
  | true =>
    refine resting (fun branch request => ?_) (undisturbed_step kind stepped).loop
    rw [request] at kind
    cases kind
  | false =>
    cases input with
    | applyLoop branch =>
      cases applyLoop_cases stepped with
      | receiveSnapshot snap idle ready =>
        simp [taken?_elsewhere, applied?, idle, ApplyLoop.held]
      | receiveCommit idle ready => simp [taken?_elsewhere, applied?, idle, ApplyLoop.held]
      | restore snap holding => simp [taken?_elsewhere, applied?, holding, ApplyLoop.held]
      | drained locked done =>
        simp [taken?, applied?, locked, Nat.not_lt.mpr done, ApplyLoop.held]
      | configure locked behind config =>
        simp [taken?_behind branch locked behind, applied?, locked, config, ApplyLoop.held]
      | take locked behind command =>
        simp [taken?_behind branch locked behind, applied?, locked, command, ApplyLoop.held]
      | apply entry holding => simp [taken?_elsewhere, applied?, holding, ApplyLoop.held]
      | deliver msg blocked room =>
        cases msg.isSnapshot <;> simp [taken?_elsewhere, applied?, blocked, ApplyLoop.held]
    | installSnapshot args saved =>
      cases stepped
      exact resting (by simp) rfl
    | readApplyCh saved =>
      refine resting (by simp) ?_
      cases readApplyCh_cases stepped with
      | routeEntry index term command result reader route next =>
        obtain ⟨pending, calls, routed⟩ := routeEntry_eq
          { process with applied := process.applied + 1 } index term result
        rw [routed]
      | _ => rfl
    | _ => cases kind

theorem holding_step {entry : LogEntry} (stepped : process.step codec now input = some after)
    (holding : after.loop = .apply entry) :
    process.loop = .apply entry ∨
      entry = process.node.log.get (process.node.lastApplied + 1) ∧ entry.isConfig = false := by
  have member : entry ∈ process.loop.held ++
      (process.taken? input).toList.filter (!·.isConfig) := by
    rw [held_step stepped, holding]
    exact List.mem_append_right _ (List.mem_singleton.mpr rfl)
  rcases List.mem_append.mp member with before | taken
  · left
    cases place : process.loop with
    | apply held =>
      rw [place] at before
      rw [List.mem_singleton.mp before]
    | _ => simp [place, ApplyLoop.held] at before
  · obtain ⟨took, command⟩ := List.mem_filter.mp taken
    exact .inr ⟨eq_get_of_taken? (Option.mem_toList.mp took), by simpa using command⟩

end Process

/-- What stands behind the results on their way to the callers. A call that has an
index has put its command into the log under this index and its term. -/
structure Sound (codec : Codec) (command : Nat → Nat → Bytes)
    (moves : List (Move Process (Nat × Input))) (process : Process) : Prop where
  once : AtMostOnce moves process
  boundary : process.node.log.snapshotIndex ≤ process.node.lastApplied
  held : ∀ entry, process.loop = .apply entry → entry.index ≠ 0 →
    entry.command = command entry.index entry.term
  reported : ∀ msg ∈ process.inTransit, Reported codec command moves msg
  own : ∀ (caller : Nat) (call : ClientCall), process.calls[caller]? = some call →
    call.index ≠ 0 → command call.index call.term = codec.encodeOp call.op ∨
      ∃ entry ∈ process.node.log.rest, entry.isConfig = false ∧ entry.index = call.index ∧
        entry.term = call.term ∧ entry.command = codec.encodeOp call.op
  received : ∀ (caller : Nat) (call : ClientCall) (result : ApplyResult),
    process.calls[caller]? = some call → call.inbox = some result → result.err = none →
      Applied codec moves call.index call.term (codec.encodeOp call.op) result
  returned : ∀ (caller : Nat) (call : ClientCall) (value : String),
    process.calls[caller]? = some call → call.state = .returned (.ok value) →
      Applied codec moves call.index call.term (codec.encodeOp call.op) { value := value }

namespace Sound

variable {codec : Codec} {command : Nat → Nat → Bytes} {process after : Process}
  {moves : List (Move Process (Nat × Input))} {now : Nat} {input : Input}

theorem determined (sound : Sound codec command moves process)
    (determines : Determines command process) {caller : Nat} {call : ClientCall}
    (found : process.calls[caller]? = some call) (indexed : call.index ≠ 0) :
    command call.index call.term = codec.encodeOp call.op := by
  rcases sound.own caller call found indexed with settled | ⟨entry, member, plain, index, term, own⟩
  · exact settled
  · rw [← index, ← term, ← determines entry member plain, own]

theorem held_step (sound : Sound codec command moves process)
    (determines : Determines command process) (stepped : process.step codec now input = some after)
    (entry : LogEntry) (holding : after.loop = .apply entry) (indexed : entry.index ≠ 0) :
    entry.command = command entry.index entry.term := by
  rcases Process.holding_step stepped holding with before | ⟨rfl, plain⟩
  · exact sound.held entry before indexed
  · rcases process.node.log.get_mem_rest (Nat.lt_succ_of_le sound.boundary) with member | missing
    · exact determines _ member plain
    · rw [missing] at indexed
      exact absurd rfl indexed

theorem reported_step (sound : Sound codec command moves process)
    (stepped : process.step codec now input = some after) (msg : ApplyMsg)
    (member : msg ∈ after.inTransit) :
    Reported codec command (moves ++ [⟨process, (now, input), after⟩]) msg := by
  have flow := Process.inTransit_step stepped
  have origin : msg ∈ process.inTransit ++ (process.made? codec input).toList := by
    rw [flow]
    exact List.mem_append_right _ member
  rcases List.mem_append.mp origin with waiting | fresh
  · exact (sound.reported msg waiting).snoc _
  · rw [Option.mem_toList] at fresh
    cases input with
    | applyLoop branch =>
      cases place : process.loop with
      | apply entry =>
        simp only [Process.made?, place, Option.some.injEq] at fresh
        subst fresh
        refine ⟨⟨⟨process, (now, .applyLoop branch), after⟩, by simp, entry, ?_, rfl, rfl, rfl, rfl⟩,
          sound.held entry place⟩
        simp [Process.applied?, place]
      | restore snap =>
        simp only [Process.made?, place, Option.some.injEq] at fresh
        subst fresh
        trivial
      | _ => simp [Process.made?, place] at fresh
    | _ => cases fresh

theorem own_step (sound : Sound codec command moves process)
    (determines : Determines command process) (stepped : process.step codec now input = some after)
    (caller : Nat) (call : ClientCall) (found : after.calls[caller]? = some call)
    (indexed : call.index ≠ 0) : command call.index call.term = codec.encodeOp call.op ∨
      ∃ entry ∈ after.node.log.rest, entry.isConfig = false ∧ entry.index = call.index ∧
        entry.term = call.term ∧ entry.command = codec.encodeOp call.op := by
  cases Process.callOrigin_step stepped found with
  | refused _ _ _ _ unplaced => exact absurd unplaced indexed
  | submitted _ _ _ _ index term _ appended =>
    exact .inr ⟨_, appended, rfl, index.symm, term.symm, rfl⟩
  | moved before present move =>
    obtain ⟨op, index, term⟩ := move.same
    rw [op, index, term]
    exact .inl (sound.determined determines present (index ▸ indexed))

/-- A result without error that is sent to a call is that of its own command. -/
theorem applied_of_answer? (sound : Sound codec command moves process)
    (determines : Determines command process) {caller : Nat} {call : ClientCall}
    {result : ApplyResult} (found : process.calls[caller]? = some call)
    (sent : process.answer? input caller = some result) (success : result.err = none) :
    Applied codec moves call.index call.term (codec.encodeOp call.op) result := by
  obtain ⟨index, term, bytes, waiting, route, registered, own, current⟩ :=
    Process.route_of_answer? sent success
  obtain ⟨known, present, at', since, waits, _⟩ :=
    sound.once.registry.pending index waiting registered
  rw [own, found] at present
  cases present
  have indexed := sound.once.registry.placed caller call found (.inr waits)
  have msg : ApplyMsg.entry index term bytes result ∈ process.inTransit := by
    simp [Process.inTransit, route, Reader.inHand]
  obtain ⟨ran, genuine⟩ := sound.reported _ msg
  rw [at', since, current, ← sound.determined determines found indexed]
  rw [at', since, current]
  rwa [genuine (at' ▸ indexed)] at ran

theorem received_step (sound : Sound codec command moves process)
    (determines : Determines command process) (stepped : process.step codec now input = some after)
    (caller : Nat) (call : ClientCall) (result : ApplyResult)
    (found : after.calls[caller]? = some call) (arrived : call.inbox = some result)
    (success : result.err = none) : Applied codec moves call.index call.term
      (codec.encodeOp call.op) result := by
  cases Process.callOrigin_step stepped found with
  | refused _ _ empty => cases empty.symm.trans arrived
  | submitted _ _ empty => cases empty.symm.trans arrived
  | moved before present move =>
    have earlier := sound.received caller before result present
    cases move with
    | keeps silent other => exact earlier arrived success
    | registers request fresh => exact earlier arrived success
    | receives other sent =>
      cases Option.some.inj arrived
      have ran := sound.applied_of_answer? determines present sent success
      exact ran
    | finishes other request waits got => cases arrived
    | expires request waits => exact earlier arrived success

theorem returned_step (sound : Sound codec command moves process)
    (stepped : process.step codec now input = some after) (caller : Nat) (call : ClientCall)
    (value : String) (found : after.calls[caller]? = some call)
    (done : call.state = .returned (.ok value)) : Applied codec moves call.index call.term
      (codec.encodeOp call.op) { value := value } := by
  cases Process.callOrigin_step stepped found with
  | refused _ _ _ refused => cases refused.symm.trans done
  | submitted _ _ _ fresh => cases fresh.symm.trans done
  | moved before present move =>
    have earlier := sound.returned caller before value present
    cases move with
    | keeps silent other => exact earlier done
    | registers request fresh => cases done
    | receives result sent => exact earlier done
    | finishes result request waits got =>
      obtain ⟨success, rfl⟩ : result.err = none ∧ result.value = value := by
        have outcome := CallState.returned.inj done
        unfold ApplyResult.outcome at outcome
        split at outcome
        · rename_i none
          exact ⟨none, Except.ok.inj outcome⟩
        · cases outcome
      have ran := sound.received caller before result present got success
      cases result
      cases success
      exact ran
    | expires request waits => cases done

theorem step {event : Nat × Input} (sound : Sound codec command moves process)
    (determines : Determines command process)
    (stepped : (Process.system codec).step process event = some after) :
    Sound codec command (moves ++ [⟨process, event, after⟩]) after where
  once := sound.once.step stepped
  boundary := boundary_step sound.boundary stepped
  held := sound.held_step determines stepped
  reported := sound.reported_step stepped
  own := sound.own_step determines stepped
  received caller call result found arrived success :=
    (sound.received_step determines stepped caller call result found arrived success).snoc _
  returned caller call value found done :=
    (sound.returned_step stepped caller call value found done).snoc _

theorem start {disk : Disk} {memory : PersistedState} (backs : disk.Backs memory)
    (codec : Codec) (command : Nat → Nat → Bytes) (cfg : Config) (threshold boots : Nat) :
    Sound codec command [] (Process.start codec cfg threshold boots disk) where
  once := .initial codec cfg threshold boots disk
  boundary := (InOrder.start backs cfg threshold boots).boundary
  held entry holding := by simp [Process.start] at holding
  reported msg member := by
    simp [Process.inTransit, Process.start, Reader.inHand, ApplyLoop.outbox] at member
  own caller call found := by simp [Process.start] at found
  received caller call result found := by simp [Process.start] at found
  returned caller call value found := by simp [Process.start] at found

end Sound

/-- Whatever happens to indices, terms and registrations: a call that returns without
an error returns the result of applying its own command at its own index and term,
and its channel is sent at most one value, when it is empty. -/
theorem result_soundness {codec : Codec} {cfg : Config} {threshold boots : Nat} {disk : Disk}
    {memory : PersistedState} (backs : disk.Backs memory) (command : Nat → Nat → Bytes)
    {moves : List (Move Process (Nat × Input))} {process : Process}
    (trace : (Process.system codec).Trace (fun process _ => Determines command process)
      (Process.start codec cfg threshold boots disk) moves process) :
    (∀ (caller : Nat) (call : ClientCall) (value : String), process.calls[caller]? = some call →
      call.state = .returned (.ok value) →
        Applied codec moves call.index call.term (codec.encodeOp call.op) { value := value }) ∧
    (∀ caller, (answersTo caller moves).length ≤ 1) ∧
    (∀ move ∈ moves, ∀ caller result, move.before.answer? move.event.2 caller = some result →
      ∃ call, move.before.calls[caller]? = some call ∧ call.inbox = none) := by
  have sound : ∀ moves process, (Process.system codec).Trace
      (fun process _ => Determines command process) (Process.start codec cfg threshold boots disk)
      moves process → Sound codec command moves process := by
    intro moves process trace
    exact trace.record (Sound codec command) (.start backs codec command cfg threshold boots)
      fun _ _ _ _ sound determines stepped => sound.step determines stepped
  have final := sound moves process trace
  refine ⟨final.returned, final.once.bounded, ?_⟩
  intro move member caller result sent
  obtain ⟨prior, reached, _⟩ := trace.of_move member
  obtain ⟨call, _, found, _, _, _, _, empty⟩ :=
    (sound prior _ reached).once.registry.of_answer? sent
  exact ⟨call, found, empty⟩

/-- `node1` wins an election, and `Set("x", "1")` is submitted. -/
def setSubmitted : List (Nat × Input) := [
  (0, .becomeCandidate),
  (0, .voteReply 1 1 2 { term := 1, voteGranted := true }),
  (0, .call setOp)]

/-- A peer stores the entry, and the apply loop hands it to the state machine. -/
def setApplied : List (Nat × Input) := [
  (0, .appendReply "node2:7001" 1 {
      term := 1
      leaderID := "node1"
      prevLogIndex := 0
      prevLogTerm := 0
      entries := [{ term := 1, index := 1, command := [] }]
      leaderCommit := 0 } { term := 1, success := true, conflictTerm := 0, conflictIndex := 0 }),
  (0, .applyLoop .commit),
  (0, .applyLoop .commit),
  (0, .applyLoop .commit),
  (0, .applyLoop .commit)]

/-- The call of `setSubmitted`. -/
def setCall (state : CallState) : ClientCall where
  op := setOp
  index := 1
  term := 1
  state := state

theorem result_soundness_leader :
    ∃ moves process, (Process.system Codec.sample).Trace
        (fun process _ => Determines (fun _ _ => []) process) (follower 100) moves process ∧
      process.calls[0]? = some (setCall (.returned (.ok ""))) ∧
      Applied Codec.sample moves 1 1 (Codec.sample.encodeOp setOp) {} := by
  obtain ⟨moves, process, trace, checked⟩ := (Process.system Codec.sample).exists_trace
    (fun process _ => Determines (fun _ _ => []) process) (follower 100)
    (setSubmitted ++ (0, .registerCall 0) :: setApplied ++ [(0, .readApplyCh true),
      (0, .readApplyCh true), (0, .finishCall 0)])
    (fun _ process => process.calls[0]? = some (setCall (.returned (.ok "")))) (by decide +kernel)
  have done := of_decide_eq_true checked
  exact ⟨moves, process, trace, done,
    (result_soundness Disk.Backs.empty (fun _ _ => []) trace).1 0 _ "" done rfl⟩

end RaftGo.KvStore
