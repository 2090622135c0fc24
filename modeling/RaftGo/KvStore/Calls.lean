import RaftGo.KvStore.Application

/-! Client calls. A call is keyed in `pending` by its index alone, while indices are
used again after a truncation and registrations are overwritten, dropped by other
calls' time-outs or drained by snapshots. What an input can do to a call, and to the
map, is said here once. -/

namespace RaftGo.KvStore

open Raft Library

def ApplyResult.notLeader : ApplyResult := { err := some .notLeader }

/-- What `call` returns for a value received. -/
def ApplyResult.outcome (result : ApplyResult) : Except KvError String :=
  match result.err with
  | none => .ok result.value
  | some err => .error err

namespace Process

/-- The value an input sends on the channel of a call. -/
def answer? (process : Process) (input : Input) (caller : Nat) : Option ApplyResult :=
  match input, process.reader with
  | .readApplyCh _, .route (.entry index term _ result) =>
    (process.pending index).bind fun waiting =>
      if waiting.caller = caller then
        some (if waiting.term ≠ term then .notLeader else result)
      else none
  | .readApplyCh _, .route (.snapshot ..) =>
    process.calls[caller]?.bind fun call => (process.pending call.index).bind fun waiting =>
      if waiting.caller = caller then some .notLeader else none
  | _, _ => none

end Process

/-- The call whose goroutine takes the step. -/
def Input.caller? : Input → Option Nat
  | .registerCall caller | .finishCall caller | .timeOutCall caller => some caller
  | _ => none

/-- What an input does to one call. -/
inductive CallMove (process : Process) (input : Input) (caller : Nat) (call : ClientCall) :
    ClientCall → Prop where
  | keeps (silent : process.answer? input caller = none) (other : input.caller? ≠ some caller) :
      CallMove process input caller call call
  | registers (request : input = .registerCall caller) (fresh : call.state = .submitted) :
      CallMove process input caller call { call with state := .waiting }
  | receives (result : ApplyResult) (sent : process.answer? input caller = some result) :
      CallMove process input caller call { call with inbox := some result }
  | finishes (result : ApplyResult) (request : input = .finishCall caller)
      (waits : call.state = .waiting) (received : call.inbox = some result) :
      CallMove process input caller call
        { call with state := .returned result.outcome, inbox := none }
  | expires (request : input = .timeOutCall caller) (waits : call.state = .waiting) :
      CallMove process input caller call { call with state := .returned (.error .timeout) }

theorem CallMove.same {process : Process} {input : Input} {caller : Nat}
    {call changed : ClientCall} (moved : CallMove process input caller call changed) :
    changed.op = call.op ∧ changed.index = call.index ∧ changed.term = call.term := by
  cases moved <;> exact ⟨rfl, rfl, rfl⟩

/-- What an input does to the map of pending calls. -/
inductive PendingMove (process : Process) (input : Input) (after : Process) : Prop where
  | keeps (same : after.pending = process.pending)
      (silent : ∀ caller, process.answer? input caller = none)
      (other : ∀ caller, input ≠ .registerCall caller ∧ input ≠ .timeOutCall caller)
  | routes (saved : Bool) (index term : Nat) (command : Bytes) (result : ApplyResult)
      (request : input = .readApplyCh saved)
      (holding : process.reader = .route (.entry index term command result))
      (removed : after.pending = Function.update process.pending index none)
  | drains (saved : Bool) (index term : Nat) (data : Bytes) (request : input = .readApplyCh saved)
      (holding : process.reader = .route (.snapshot index term data))
      (drained : after.pending = fun _ => none)
  | registers (caller : Nat) (call : ClientCall) (request : input = .registerCall caller)
      (found : process.calls[caller]? = some call) (fresh : call.state = .submitted)
      (added : after.pending =
        Function.update process.pending call.index (some ⟨call.term, caller⟩))
  | expires (caller : Nat) (call : ClientCall) (request : input = .timeOutCall caller)
      (found : process.calls[caller]? = some call)
      (removed : after.pending = Function.update process.pending call.index none)

/-- The inputs that leave the goroutines of the `KVStore` alone. -/
def Input.sidelines : Input → Bool
  | .applyLoop _ | .readApplyCh _ | .call _ | .registerCall _ | .finishCall _
  | .timeOutCall _ => false
  | _ => true

/-- Nothing outside the Raft node has changed. -/
structure Sidelined (process after : Process) : Prop where
  calls : after.calls = process.calls
  pending : after.pending = process.pending
  applyCh : after.applyCh = process.applyCh
  reader : after.reader = process.reader
  loop : after.loop = process.loop
  data : after.data = process.data

namespace Process

variable {codec : Codec} {now : Nat} {process after : Process} {input : Input} {caller : Nat}
  {call : ClientCall}

theorem sidelined_step (sidelines : input.sidelines = true)
    (stepped : process.step codec now input = some after) : Sidelined process after := by
  cases input with
  | applyLoop branch => cases sidelines
  | readApplyCh saved => cases sidelines
  | call op => cases sidelines
  | registerCall caller => cases sidelines
  | finishCall caller => cases sidelines
  | timeOutCall caller => cases sidelines
  | electionTimeout =>
    simp only [step] at stepped
    split at stepped <;> cases stepped <;> exact ⟨rfl, rfl, rfl, rfl, rfl, rfl⟩
  | startPreVote =>
    obtain ⟨_, rfl⟩ := step_startPreVote stepped
    exact ⟨rfl, rfl, rfl, rfl, rfl, rfl⟩
  | becomeCandidate =>
    simp only [step] at stepped
    split at stepped <;> cases stepped <;> exact ⟨rfl, rfl, rfl, rfl, rfl, rfl⟩
  | startElection =>
    obtain ⟨_, rfl⟩ := step_startElection stepped
    exact ⟨rfl, rfl, rfl, rfl, rfl, rfl⟩
  | resetTimer =>
    simp only [step] at stepped
    split at stepped <;> cases stepped
    exact ⟨rfl, rfl, rfl, rfl, rfl, rfl⟩
  | _ =>
    cases stepped
    exact ⟨rfl, rfl, rfl, rfl, rfl, rfl⟩

theorem answer?_elsewhere (other : ∀ saved, input ≠ .readApplyCh saved) :
    process.answer? input caller = none := by
  cases input with
  | readApplyCh saved => exact absurd rfl (other saved)
  | _ => rfl

/-- Only two transitions of `readApplyCh` send to calls. -/
theorem answer?_idle {saved : Bool} (idle : ∀ msg, process.reader ≠ .route msg) :
    process.answer? (.readApplyCh saved) caller = none := by
  cases place : process.reader with
  | route msg => exact absurd place (idle msg)
  | _ => simp [answer?, place]

theorem answer?_entry (saved : Bool) (caller : Nat) {index term : Nat} {command : Bytes}
    {result : ApplyResult}
    (holding : process.reader = .route (.entry index term command result)) :
    process.answer? (.readApplyCh saved) caller = (process.pending index).bind fun waiting =>
      if waiting.caller = caller then some (if waiting.term ≠ term then .notLeader else result)
      else none := by
  simp only [answer?, holding]

theorem answer?_snapshot (saved : Bool) (caller : Nat) {index term : Nat} {data : Bytes}
    (holding : process.reader = .route (.snapshot index term data)) :
    process.answer? (.readApplyCh saved) caller = process.calls[caller]?.bind fun call =>
      (process.pending call.index).bind fun waiting =>
        if waiting.caller = caller then some .notLeader else none := by
  simp only [answer?, holding]

/-- Where a value comes from that a call is sent: from the entry under whose index the
call is registered, or from a snapshot that drains the map. -/
inductive Answering (process : Process) (caller : Nat) : Input → ApplyResult → Prop where
  | entry (saved : Bool) (index term : Nat) (command : Bytes) (result : ApplyResult)
      (waiting : PendingCall)
      (holding : process.reader = .route (.entry index term command result))
      (registered : process.pending index = some waiting) (own : waiting.caller = caller) :
      Answering process caller (.readApplyCh saved)
        (if waiting.term ≠ term then .notLeader else result)
  | snapshot (saved : Bool) (index term : Nat) (data : Bytes) (place : Nat)
      (waiting : PendingCall) (holding : process.reader = .route (.snapshot index term data))
      (registered : process.pending place = some waiting) (own : waiting.caller = caller) :
      Answering process caller (.readApplyCh saved) .notLeader

theorem answering_of_answer? {result : ApplyResult}
    (sent : process.answer? input caller = some result) :
    Answering process caller input result := by
  cases input with
  | readApplyCh saved =>
    cases place : process.reader with
    | route msg =>
      cases msg with
      | entry index term command outcome =>
        rw [answer?_entry saved caller place, Option.bind_eq_some_iff] at sent
        obtain ⟨waiting, found, sending⟩ := sent
        obtain ⟨own, value⟩ := Option.ite_none_right_eq_some.mp sending
        cases value
        exact .entry saved index term command outcome waiting place found own
      | snapshot index term data =>
        rw [answer?_snapshot saved caller place, Option.bind_eq_some_iff] at sent
        obtain ⟨call, _, sent⟩ := sent
        obtain ⟨waiting, found, sending⟩ := Option.bind_eq_some_iff.mp sent
        obtain ⟨own, value⟩ := Option.ite_none_right_eq_some.mp sending
        cases value
        exact .snapshot saved index term data call.index waiting place found own
    | _ => simp [answer?, place] at sent
  | _ => cases sent

/-- Routing a result answers the call registered for its index. -/
theorem routeEntry_cases (process : Process) (index term : Nat) (result : ApplyResult) :
    (process.pending index = none ∧ process.routeEntry index term result = process) ∨
    ∃ waiting, process.pending index = some waiting ∧
      process.routeEntry index term result =
        { process with pending := Function.update process.pending index none }.answer
          waiting.caller (if waiting.term ≠ term then .notLeader else result) := by
  unfold routeEntry
  cases found : process.pending index with
  | none => exact .inl ⟨rfl, rfl⟩
  | some waiting =>
    refine .inr ⟨waiting, rfl, ?_⟩
    dsimp only
    split <;> rfl

theorem getElem?_answer (process : Process) (caller target : Nat) (result : ApplyResult) :
    (process.answer target result).calls[caller]? =
      process.calls[caller]?.map fun call =>
        if target = caller then { call with inbox := some result } else call := by
  simp only [answer, List.getElem?_modify]
  cases process.calls[caller]? <;> simp

theorem failAllPending_found (found : process.calls[caller]? = some call) :
    process.failAllPending.calls[caller]? = some ((process.pending call.index).elim call
      fun waiting => if waiting.caller = caller then { call with inbox := some .notLeader }
        else call) := by
  simp only [failAllPending, List.getElem?_mapIdx, found, Option.map_some]
  cases process.pending call.index <;> rfl

/-- A call receives what is sent to it, and is left alone otherwise. -/
theorem callMove_sent {saved : Bool} {result : ApplyResult} {own : Prop} [Decidable own]
    (sent : process.answer? (.readApplyCh saved) caller = if own then some result else none) :
    CallMove process (.readApplyCh saved) caller call
      (if own then { call with inbox := some result } else call) := by
  by_cases mine : own
  · rw [if_pos mine] at sent ⊢
    exact .receives result sent
  · rw [if_neg mine] at sent ⊢
    exact .keeps sent (by simp [Input.caller?])

theorem callMove_readApplyCh {saved : Bool} (found : process.calls[caller]? = some call)
    (moved : ReadTransition codec process saved after) :
    ∃ changed, after.calls[caller]? = some changed ∧
      CallMove process (.readApplyCh saved) caller call changed := by
  cases moved with
  | receive msg rest idle ready =>
    exact ⟨call, found, .keeps (answer?_idle (by simp [idle])) (by simp [Input.caller?])⟩
  | capture due =>
    exact ⟨call, found, .keeps (answer?_idle (by simp [due])) (by simp [Input.caller?])⟩
  | take data holding =>
    exact ⟨call, found, .keeps (answer?_idle (by simp [holding])) (by simp [Input.caller?])⟩
  | routeSnapshot index term data holding =>
    have sent := answer?_snapshot saved caller holding
    rw [found, Option.bind_some] at sent
    refine ⟨_, failAllPending_found found, ?_⟩
    cases registered : process.pending call.index with
    | none => exact .keeps (by rw [sent, registered, Option.bind_none]) (by simp [Input.caller?])
    | some waiting =>
      rw [registered, Option.bind_some] at sent
      exact callMove_sent sent
  | routeEntry index term command result reader holding next =>
    have sent := answer?_entry saved caller holding
    rcases routeEntry_cases { process with applied := process.applied + 1 } index term result with
      ⟨nobody, same⟩ | ⟨waiting, registered, routed⟩
    · rw [show process.pending index = none from nobody, Option.bind_none] at sent
      rw [same]
      exact ⟨call, found, .keeps sent (by simp [Input.caller?])⟩
    · rw [show process.pending index = some waiting from registered, Option.bind_some] at sent
      have changed := getElem?_answer { process with
        applied := process.applied + 1
        pending := Function.update process.pending index none } caller waiting.caller
        (if waiting.term ≠ term then .notLeader else result)
      rw [found, Option.map_some] at changed
      rw [routed]
      exact ⟨_, changed, callMove_sent sent⟩

theorem callMove_set {taker : Nat} {present changed : ClientCall}
    (moved : CallMove process input taker present changed)
    (lookup : process.calls[taker]? = some present) (taken : input.caller? = some taker)
    (silent : process.answer? input caller = none) (found : process.calls[caller]? = some call) :
    ∃ result, (process.calls.set taker changed)[caller]? = some result ∧
      CallMove process input caller call result := by
  by_cases own : taker = caller
  · subst own
    cases Option.some.inj (found.symm.trans lookup)
    have inside := (List.getElem?_eq_some_iff.mp found).1
    exact ⟨changed, List.getElem?_set_self inside, moved⟩
  · refine ⟨call, (List.getElem?_set_ne own).trans found, .keeps silent ?_⟩
    rw [taken]
    exact fun same => own (Option.some.inj same)

/-- A call that exists goes on existing, and changes in one of five ways. -/
theorem callMove_step (found : process.calls[caller]? = some call)
    (stepped : process.step codec now input = some after) :
    ∃ changed, after.calls[caller]? = some changed ∧
      CallMove process input caller call changed := by
  cases kind : input.sidelines with
  | true =>
    have same := sidelined_step kind stepped
    refine ⟨call, same.calls ▸ found, .keeps (answer?_elsewhere ?_) ?_⟩
    · rintro saved rfl
      cases kind
    · cases input <;> simp_all [Input.caller?, Input.sidelines]
  | false =>
    cases input with
    | applyLoop branch =>
      refine ⟨call, ?_, .keeps rfl (by simp [Input.caller?])⟩
      cases applyLoop_cases stepped <;> exact found
    | readApplyCh saved => exact callMove_readApplyCh found (readApplyCh_cases stepped)
    | call op =>
      cases stepped
      refine ⟨call, ?_, .keeps rfl (by simp [Input.caller?])⟩
      have inside := (List.getElem?_eq_some_iff.mp found).1
      rcases process.startCall_cases codec op with ⟨_, refused⟩ | ⟨_, accepted⟩
      · rw [refused]
        exact (List.getElem?_append_left inside).trans found
      · rw [accepted]
        exact (List.getElem?_append_left inside).trans found
    | registerCall taker =>
      obtain ⟨present, lookup, fresh, rfl⟩ := registerCall_cases stepped
      exact callMove_set (.registers rfl fresh) lookup rfl rfl found
    | finishCall taker =>
      obtain ⟨present, result, outcome, lookup, waits, received, rfl, rfl⟩ :=
        finishCall_cases stepped
      exact callMove_set (.finishes result rfl waits received) lookup rfl rfl found
    | timeOutCall taker =>
      obtain ⟨present, lookup, waits, rfl⟩ := timeOutCall_cases stepped
      exact callMove_set (.expires rfl waits) lookup rfl rfl found
    | _ => cases kind

theorem pendingMove_step (stepped : process.step codec now input = some after) :
    PendingMove process input after := by
  cases kind : input.sidelines with
  | true =>
    have same := sidelined_step kind stepped
    refine .keeps same.pending (fun caller => answer?_elsewhere ?_) ?_
    · rintro saved rfl
      cases kind
    · intro caller
      constructor <;> rintro rfl <;> cases kind
  | false =>
    cases input with
    | applyLoop branch =>
      refine .keeps ?_ (fun _ => rfl) (by simp)
      cases applyLoop_cases stepped <;> rfl
    | readApplyCh saved =>
      cases readApplyCh_cases stepped with
      | receive msg rest idle ready =>
        exact .keeps rfl (fun _ => answer?_idle (by simp [idle])) (by simp)
      | capture due => exact .keeps rfl (fun _ => answer?_idle (by simp [due])) (by simp)
      | take data holding =>
        exact .keeps rfl (fun _ => answer?_idle (by simp [holding])) (by simp)
      | routeSnapshot index term data holding => exact .drains saved index term data rfl holding rfl
      | routeEntry index term command result reader holding next =>
        refine .routes saved index term command result rfl holding ?_
        rcases routeEntry_cases { process with applied := process.applied + 1 } index term result
          with ⟨nobody, same⟩ | ⟨waiting, registered, routed⟩
        · rw [same]
          exact (Function.update_eq_self_iff.mpr nobody.symm).symm
        · rw [routed]
          rfl
    | call op =>
      cases stepped
      refine .keeps ?_ (fun _ => rfl) (by simp)
      rcases process.startCall_cases codec op with ⟨_, refused⟩ | ⟨_, accepted⟩
      · rw [refused]
      · rw [accepted]
    | registerCall caller =>
      obtain ⟨call, found, fresh, rfl⟩ := registerCall_cases stepped
      exact .registers caller call rfl found fresh rfl
    | finishCall caller =>
      obtain ⟨call, result, outcome, _, _, _, _, rfl⟩ := finishCall_cases stepped
      exact .keeps rfl (fun _ => rfl) (by simp)
    | timeOutCall caller =>
      obtain ⟨call, found, _, rfl⟩ := timeOutCall_cases stepped
      exact .expires caller call rfl found rfl
    | _ => cases kind

theorem length_calls_step (calling : ∀ op, input ≠ .call op)
    (stepped : process.step codec now input = some after) :
    after.calls.length = process.calls.length := by
  cases kind : input.sidelines with
  | true => rw [(sidelined_step kind stepped).calls]
  | false =>
    cases input with
    | applyLoop branch => cases applyLoop_cases stepped <;> rfl
    | readApplyCh saved =>
      cases readApplyCh_cases stepped with
      | routeSnapshot index term data holding => simp [failAllPending]
      | routeEntry index term command result reader holding next =>
        rcases routeEntry_cases { process with applied := process.applied + 1 } index term result
          with ⟨_, same⟩ | ⟨waiting, _, routed⟩
        · rw [same]
        · rw [routed]
          simp [answer]
      | _ => rfl
    | call op => exact absurd rfl (calling op)
    | registerCall other =>
      obtain ⟨_, _, _, rfl⟩ := registerCall_cases stepped
      exact List.length_set
    | finishCall other =>
      obtain ⟨_, _, _, _, _, _, _, rfl⟩ := finishCall_cases stepped
      exact List.length_set
    | timeOutCall other =>
      obtain ⟨_, _, _, rfl⟩ := timeOutCall_cases stepped
      exact List.length_set
    | _ => cases kind

/-- Where a call comes from that exists after an input: it has just been made, and was
refused or submitted, or it existed before. -/
inductive CallOrigin (codec : Codec) (process : Process) (input : Input) (after : Process)
    (caller : Nat) (call : ClientCall) : Prop where
  | refused (absent : process.calls[caller]? = none) (request : input = .call call.op)
      (empty : call.inbox = none) (done : call.state = .returned (.error .notLeader))
      (unplaced : call.index = 0)
  | submitted (absent : process.calls[caller]? = none) (request : input = .call call.op)
      (empty : call.inbox = none) (fresh : call.state = .submitted)
      (index : call.index = process.node.log.lastIndex + 1)
      (term : call.term = process.node.currentTerm) (leads : process.node.state = .leader)
      (appended : process.nextEntry (codec.encodeOp call.op) ∈ after.node.log.rest)
  | moved (before : ClientCall) (present : process.calls[caller]? = some before)
      (move : CallMove process input caller before call)

theorem callOrigin_step (stepped : process.step codec now input = some after)
    (found : after.calls[caller]? = some call) :
    CallOrigin codec process input after caller call := by
  cases present : process.calls[caller]? with
  | some before =>
    obtain ⟨changed, lookup, move⟩ := callMove_step present stepped
    cases Option.some.inj (found.symm.trans lookup)
    exact .moved before present move
  | none =>
    have outside := List.getElem?_eq_none_iff.mp present
    by_cases calling : ∀ op, input ≠ .call op
    · have inside := (List.getElem?_eq_some_iff.mp found).1
      rw [length_calls_step calling stepped] at inside
      omega
    · obtain ⟨op, rfl⟩ := not_forall_not.mp calling
      cases stepped
      have last {fresh : ClientCall} (lookup : (process.calls ++ [fresh])[caller]? = some call) :
          call = fresh := by
        rcases getElem?_snoc_cases lookup with old | ⟨_, same⟩
        · rw [present] at old
          cases old
        · exact same
      rcases process.startCall_cases codec op with ⟨_, refused⟩ | ⟨leads, accepted⟩
      · rw [refused] at found
        cases last found
        exact .refused present rfl rfl rfl rfl
      · rw [accepted] at found ⊢
        cases last found
        exact .submitted present rfl rfl rfl rfl rfl leads
          (by simp [RaftNode.persist, RaftNode.write])

end Process

/-- Calls wait for their first value: `pending` holds, under its index, a call whose
channel is empty, and a call not registered yet has received nothing. Index zero
belongs to refused calls only. -/
structure Registry (process : Process) : Prop where
  placed : ∀ (caller : Nat) (call : ClientCall), process.calls[caller]? = some call →
    call.state = .submitted ∨ call.state = .waiting → call.index ≠ 0
  submitted : ∀ (caller : Nat) (call : ClientCall), process.calls[caller]? = some call →
    call.state = .submitted → call.inbox = none
  pending : ∀ index waiting, process.pending index = some waiting →
    ∃ call, process.calls[waiting.caller]? = some call ∧ call.index = index ∧
      call.term = waiting.term ∧ call.state = .waiting ∧ call.inbox = none

namespace Registry

variable {codec : Codec} {now : Nat} {process after : Process} {input : Input} {caller : Nat}
  {call : ClientCall} {result : ApplyResult}

theorem start (codec : Codec) (cfg : Config) (threshold boots : Nat) (disk : Disk) :
    Registry (Process.start codec cfg threshold boots disk) where
  placed caller call found := by simp [Process.start] at found
  submitted caller call found := by simp [Process.start] at found
  pending index waiting found := by simp [Process.start] at found

/-- A value is only sent to a call registered under its own index. -/
theorem of_answer? (registry : Registry process)
    (sent : process.answer? input caller = some result) :
    ∃ call waiting, process.calls[caller]? = some call ∧
      process.pending call.index = some waiting ∧ waiting.caller = caller ∧
      waiting.term = call.term ∧ call.state = .waiting ∧ call.inbox = none := by
  obtain ⟨index, waiting, found, rfl⟩ : ∃ index waiting,
      process.pending index = some waiting ∧ waiting.caller = caller := by
    cases Process.answering_of_answer? sent with
    | entry _ index _ _ _ waiting _ registered own => exact ⟨index, waiting, registered, own⟩
    | snapshot _ _ _ _ place waiting _ registered own => exact ⟨place, waiting, registered, own⟩
  obtain ⟨call, present, rfl, term, waits, empty⟩ := registry.pending index waiting found
  exact ⟨call, waiting, present, found, rfl, term.symm, waits, empty⟩

theorem answer?_absent (registry : Registry process) (absent : process.calls[caller]? = none) :
    process.answer? input caller = none := by
  cases sent : process.answer? input caller with
  | none => rfl
  | some result =>
    obtain ⟨call, _, present, _⟩ := registry.of_answer? sent
    cases absent.symm.trans present

/-- A registered call stays as it is unless it is answered or expires. -/
theorem kept (registry : Registry process) (stepped : process.step codec now input = some after)
    {index : Nat} {waiting : PendingCall} (found : process.pending index = some waiting)
    (unanswered : process.answer? input waiting.caller = none)
    (unexpired : input ≠ .timeOutCall waiting.caller) :
    ∃ call, after.calls[waiting.caller]? = some call ∧ call.index = index ∧
      call.term = waiting.term ∧ call.state = .waiting ∧ call.inbox = none := by
  obtain ⟨call, present, index', term, waits, empty⟩ := registry.pending index waiting found
  obtain ⟨changed, lookup, moved⟩ := Process.callMove_step present stepped
  cases moved with
  | keeps silent other => exact ⟨call, lookup, index', term, waits, empty⟩
  | registers request fresh => cases waits.symm.trans fresh
  | receives result sent => cases unanswered.symm.trans sent
  | finishes result request waits' received => cases empty.symm.trans received
  | expires request waits' => exact absurd request unexpired

theorem placed_step (registry : Registry process)
    (stepped : process.step codec now input = some after) (caller : Nat) (call : ClientCall)
    (found : after.calls[caller]? = some call)
    (active : call.state = .submitted ∨ call.state = .waiting) : call.index ≠ 0 := by
  cases Process.callOrigin_step stepped found with
  | refused _ _ _ done _ => rcases active with state | state <;> cases done.symm.trans state
  | submitted _ _ _ _ index => omega
  | moved before present move =>
    have earlier := registry.placed caller before present
    cases move with
    | keeps silent other => exact earlier active
    | registers request fresh => exact earlier (.inl fresh)
    | receives result sent => exact earlier active
    | finishes result request waits got => exact earlier (.inr waits)
    | expires request waits => exact earlier (.inr waits)

theorem submitted_step (registry : Registry process)
    (stepped : process.step codec now input = some after) (caller : Nat) (changed : ClientCall)
    (lookup : after.calls[caller]? = some changed) (fresh : changed.state = .submitted) :
    changed.inbox = none := by
  cases Process.callOrigin_step stepped lookup with
  | refused _ _ empty => exact empty
  | submitted _ _ empty => exact empty
  | moved call present move =>
    cases move with
    | keeps silent other => exact registry.submitted caller _ present fresh
    | registers request was => cases fresh
    | receives result sent =>
      obtain ⟨known, waiting, present', _, _, _, waits, _⟩ := registry.of_answer? sent
      cases Option.some.inj (present.symm.trans present')
      cases fresh.symm.trans waits
    | finishes result request waits received => cases fresh
    | expires request waits => cases fresh

theorem index_of (registry : Registry process) {index : Nat} {waiting : PendingCall}
    (registered : process.pending index = some waiting)
    (found : process.calls[waiting.caller]? = some call) : call.index = index := by
  obtain ⟨known, present, at', _⟩ := registry.pending index waiting registered
  cases Option.some.inj (found.symm.trans present)
  exact at'

/-- A call in the map was there before and has neither been answered nor expired, or it
has just registered. -/
theorem pending_back (registry : Registry process)
    (stepped : process.step codec now input = some after) {index : Nat} {waiting : PendingCall}
    (registered : after.pending index = some waiting) :
    (process.pending index = some waiting ∧ process.answer? input waiting.caller = none ∧
      input ≠ .timeOutCall waiting.caller) ∨
    ∃ call, input = .registerCall waiting.caller ∧
      process.calls[waiting.caller]? = some call ∧ call.state = .submitted ∧
      call.index = index ∧ call.term = waiting.term := by
  have stayed {dropped : Nat}
      (removed : after.pending = Function.update process.pending dropped none) :
      index ≠ dropped ∧ process.pending index = some waiting := by
    rw [removed] at registered
    by_cases same : index = dropped
    · simp [same] at registered
    · rw [Function.update_of_ne same] at registered
      exact ⟨same, registered⟩
  cases Process.pendingMove_step stepped with
  | keeps same silent other => exact .inl ⟨same ▸ registered, silent _, (other _).2⟩
  | routes saved routed term command result request holding removed =>
    obtain ⟨different, before⟩ := stayed removed
    subst request
    refine .inl ⟨before, ?_, by simp⟩
    -- the call answered is registered under the routed index
    cases sent : process.answer? (.readApplyCh saved) waiting.caller with
    | none => rfl
    | some reply =>
      obtain ⟨call, present, at', _⟩ := registry.pending index waiting before
      cases Process.answering_of_answer? sent with
      | entry _ _ _ _ _ _ holding' found own =>
        cases holding.symm.trans holding'
        exact absurd (at'.symm.trans (registry.index_of found (own ▸ present))) different
      | snapshot _ _ _ _ _ _ holding' => cases holding.symm.trans holding'
  | drains saved at' term data request holding drained =>
    rw [drained] at registered
    cases registered
  | registers caller call request found fresh added =>
    rw [added] at registered
    by_cases same : index = call.index
    · subst same
      simp only [Function.update_self, Option.some.injEq] at registered
      subst registered
      exact .inr ⟨call, request, found, fresh, rfl, rfl⟩
    · rw [Function.update_of_ne same] at registered
      exact .inl ⟨registered, by rw [request]; rfl, by simp [request]⟩
  | expires caller call request found removed =>
    obtain ⟨different, before⟩ := stayed removed
    refine .inl ⟨before, by rw [request]; rfl, ?_⟩
    intro expires
    have own : caller = waiting.caller := Input.timeOutCall.inj (request.symm.trans expires)
    exact different (registry.index_of before (own ▸ found)).symm

theorem pending_step (registry : Registry process)
    (stepped : process.step codec now input = some after) (index : Nat) (waiting : PendingCall)
    (registered : after.pending index = some waiting) :
    ∃ call, after.calls[waiting.caller]? = some call ∧ call.index = index ∧
      call.term = waiting.term ∧ call.state = .waiting ∧ call.inbox = none := by
  rcases registry.pending_back stepped registered with
    ⟨before, silent, unexpired⟩ | ⟨call, request, found, fresh, index', term⟩
  · exact registry.kept stepped before silent unexpired
  · obtain ⟨changed, lookup, moved⟩ := Process.callMove_step found stepped
    have empty := registry.submitted _ call found fresh
    subst request
    cases moved with
    | registers _ _ => exact ⟨_, lookup, index', term, rfl, empty⟩
    | keeps silent other => exact absurd rfl other
    | receives result sent => cases sent
    | finishes result request waits received => cases request
    | expires request waits => cases request

theorem step (registry : Registry process) (stepped : process.step codec now input = some after) :
    Registry after where
  placed := registry.placed_step stepped
  submitted := registry.submitted_step stepped
  pending := registry.pending_step stepped

end Registry

/-- A call that may still be sent a value: not registered yet, or registered. -/
def Process.Open (process : Process) (caller : Nat) : Prop :=
  ∃ call, process.calls[caller]? = some call ∧ (call.state = .submitted ∨
    ∃ waiting, process.pending call.index = some waiting ∧ waiting.caller = caller)

/-- The values sent on the channel of a call in a run, in order. -/
def answersTo (caller : Nat) (moves : List (Move Process (Nat × Input))) : List ApplyResult :=
  moves.filterMap fun move => move.before.answer? move.event.2 caller

theorem answersTo_snoc (caller : Nat) (moves : List (Move Process (Nat × Input)))
    (move : Move Process (Nat × Input)) : answersTo caller (moves ++ [move]) =
      answersTo caller moves ++ (move.before.answer? move.event.2 caller).toList := by
  unfold answersTo
  cases found : move.before.answer? move.event.2 caller <;> simp [found]

namespace Registry

variable {codec : Codec} {now : Nat} {process after : Process} {input : Input} {caller : Nat}

/-- A call that is open after an input was open before or did not exist, and the
input has sent it nothing. -/
theorem open_back (registry : Registry process)
    (stepped : process.step codec now input = some after) (opened : after.Open caller) :
    process.answer? input caller = none ∧
      (process.calls[caller]? = none ∨ process.Open caller) := by
  obtain ⟨changed, lookup, standing⟩ := opened
  cases Process.callOrigin_step stepped lookup with
  | refused absent => exact ⟨registry.answer?_absent absent, .inl absent⟩
  | submitted absent => exact ⟨registry.answer?_absent absent, .inl absent⟩
  | moved call present move =>
    -- what stands in the map afterwards waits with an empty channel
    have waits : (∃ waiting, after.pending changed.index = some waiting ∧
        waiting.caller = caller) → changed.state = .waiting ∧ changed.inbox = none := by
      rintro ⟨waiting, registered, rfl⟩
      obtain ⟨known, found, _, _, state, empty⟩ :=
        (registry.step stepped).pending _ _ registered
      cases Option.some.inj (lookup.symm.trans found)
      exact ⟨state, empty⟩
    cases move with
    | keeps silent other =>
      refine ⟨silent, .inr ⟨_, present, ?_⟩⟩
      rcases standing with fresh | ⟨waiting, registered, own⟩
      · exact .inl fresh
      · refine .inr ⟨waiting, ?_, own⟩
        rcases registry.pending_back stepped registered with ⟨before, _⟩ | ⟨_, request, _⟩
        · exact before
        · exact absurd (by simp [request, Input.caller?, own]) other
    | registers request fresh =>
      exact ⟨by rw [request]; rfl, .inr ⟨_, present, .inl fresh⟩⟩
    | receives result sent =>
      rcases standing with fresh | registered
      · obtain ⟨known, _, present', _, _, _, state, _⟩ := registry.of_answer? sent
        cases Option.some.inj (present.symm.trans present')
        cases state.symm.trans fresh
      · cases (waits registered).2
    | finishes result request state received =>
      rcases standing with fresh | registered
      · cases fresh
      · cases (waits registered).1
    | expires request state =>
      rcases standing with fresh | registered
      · cases fresh
      · cases (waits registered).1

end Registry

/-- A call receives nothing while it is open, and at most one value ever. -/
structure AtMostOnce (moves : List (Move Process (Nat × Input))) (process : Process) : Prop where
  registry : Registry process
  bounded : ∀ caller, (answersTo caller moves).length ≤ 1
  unsent : ∀ caller, process.calls[caller]? = none ∨ process.Open caller →
    answersTo caller moves = []

namespace AtMostOnce

variable {codec : Codec} {process after : Process} {moves : List (Move Process (Nat × Input))}

theorem step {event : Nat × Input} (once : AtMostOnce moves process)
    (stepped : (Process.system codec).step process event = some after) :
    AtMostOnce (moves ++ [⟨process, event, after⟩]) after := by
  obtain ⟨now, input⟩ := event
  have registry := once.registry
  refine ⟨registry.step stepped, fun caller => ?_, fun caller standing => ?_⟩
  · rw [answersTo_snoc]
    cases sent : process.answer? input caller with
    | none => simpa [sent] using once.bounded caller
    | some result =>
      obtain ⟨call, waiting, present, registered, own, _⟩ := registry.of_answer? sent
      rw [once.unsent caller (.inr ⟨call, present, .inr ⟨waiting, registered, own⟩⟩)]
      simp
  · have before : process.answer? input caller = none ∧
        (process.calls[caller]? = none ∨ process.Open caller) := by
      rcases standing with absent | opened
      · cases present : process.calls[caller]? with
        | none => exact ⟨registry.answer?_absent present, .inl rfl⟩
        | some call =>
          obtain ⟨changed, lookup, _⟩ := Process.callMove_step present stepped
          cases absent.symm.trans lookup
      · exact registry.open_back stepped opened
    rw [answersTo_snoc, once.unsent caller before.2, before.1]
    rfl

theorem initial (codec : Codec) (cfg : Config) (threshold boots : Nat) (disk : Disk) :
    AtMostOnce [] (Process.start codec cfg threshold boots disk) :=
  ⟨.start codec cfg threshold boots disk, fun _ => Nat.zero_le _, fun _ _ => rfl⟩

end AtMostOnce

end RaftGo.KvStore
