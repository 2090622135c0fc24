import RaftGo.Cluster.Replica

/-! The client side of a process against the history: a call knows where its
entry was written, whatever the apply loop hands on was chosen, and so a call is
answered without an error only for an entry that was chosen. -/

namespace RaftGo

open Raft KvStore Library Library.Consensus

variable {ι : Type}

/-- The entry `Submit` wrote for the call. -/
def KvStore.ClientCall.entry (codec : Codec) (call : ClientCall) : LogEntry where
  term := call.term
  index := call.index
  command := codec.encodeOp call.op

variable [Fintype ι] (codec : Codec) (ghost : Consensus.State ι LogEntry)

structure Recorded (call : ClientCall) : Prop where
  written : call.index = 0 ∨
    (ghost.reign call.term)[call.index - 1]? = some (call.entry codec)
  answered : ∀ result, call.inbox = some result → result.err = none →
    Chosen ghost call.index (call.entry codec)
  returned : ∀ value, call.state = .returned (.ok value) →
    Chosen ghost call.index (call.entry codec)

/-- A message of the apply loop reports a chosen entry, by index and term. -/
def Truthful : ApplyMsg → Prop
  | .entry index term _ _ => ∃ entry : LogEntry, Chosen ghost index entry ∧ entry.term = term
  | .snapshot .. => True

structure Answers (process : Process) : Prop where
  calls : ∀ (caller : Nat) (call : ClientCall), process.calls[caller]? = some call → Recorded codec ghost call
  pending : ∀ index waiting, process.pending index = some waiting → ∃ call,
    process.calls[waiting.caller]? = some call ∧ call.index = index ∧ call.term = waiting.term
  applying : ∀ entry, process.loop = .apply entry → Chosen ghost entry.index entry
  delivering : ∀ msg, process.loop = .deliver msg → Truthful ghost msg
  channel : ∀ msg ∈ process.applyCh, Truthful ghost msg
  routing : ∀ msg, process.reader = .route msg → Truthful ghost msg

section Stable

variable [DecidableEq ι] {codec} {ghost} {next : Consensus.State ι LogEntry} {i : ι}

theorem Recorded.moves {call : ClientCall} (recorded : Recorded codec ghost call)
    (sound : Consensus.Sound ghost) (moved : Consensus.Step ghost i next) :
    Recorded codec next call where
  written := recorded.written.imp_right (getElem?_of_initial (sound.reign_le moved _))
  answered result received fine := sound.chosen_step moved (recorded.answered result received fine)
  returned value done := sound.chosen_step moved (recorded.returned value done)

theorem Truthful.moves {msg : ApplyMsg} (truthful : Truthful ghost msg)
    (sound : Consensus.Sound ghost) (moved : Consensus.Step ghost i next) :
    Truthful next msg := by
  cases msg with
  | entry index term command result =>
    obtain ⟨entry, chosen, stamped⟩ := truthful
    exact ⟨entry, sound.chosen_step moved chosen, stamped⟩
  | snapshot => trivial

theorem Answers.moves {process : Process} (answers : Answers codec ghost process)
    (sound : Consensus.Sound ghost) (moved : Consensus.Step ghost i next) :
    Answers codec next process where
  calls caller call found := (answers.calls caller call found).moves sound moved
  pending := answers.pending
  applying entry holding := sound.chosen_step moved (answers.applying entry holding)
  delivering msg holding := (answers.delivering msg holding).moves sound moved
  channel msg member := (answers.channel msg member).moves sound moved
  routing msg holding := (answers.routing msg holding).moves sound moved

end Stable

section Transitions

variable {codec} {ghost} {process after : Process} {now : Nat}

theorem Answers.withNode (answers : Answers codec ghost process) (node : RaftNode) :
    Answers codec ghost (process.withNode node) :=
  { answers with }

theorem Answers.start (cfg : Config) (threshold boots : Nat) (disk : Disk) :
    Answers codec ghost (Process.start codec cfg threshold boots disk) where
  calls _ _ found := by simp [Process.start] at found
  pending _ _ found := by simp [Process.start] at found
  applying _ holding := by simp [Process.start] at holding
  delivering _ holding := by simp [Process.start] at holding
  channel _ member := by simp [Process.start] at member
  routing _ holding := by simp [Process.start] at holding

theorem Answers.setCall (answers : Answers codec ghost process) {caller : Nat}
    {call changed : ClientCall} (found : process.calls[caller]? = some call)
    (recorded : Recorded codec ghost changed) (index : changed.index = call.index)
    (term : changed.term = call.term) :
    Answers codec ghost { process with calls := process.calls.set caller changed } := by
  have inside := (List.getElem?_eq_some_iff.mp found).1
  exact { answers with
    calls := by
      intro other present lookup
      simp only [List.getElem?_set, inside, ↓reduceIte] at lookup
      split at lookup
      · exact Option.some.inj lookup ▸ recorded
      · exact answers.calls other present lookup
    pending := by
      intro position waiting registered
      obtain ⟨present, lookup, at', in'⟩ := answers.pending position waiting registered
      by_cases same : caller = waiting.caller
      · subst same
        cases Option.some.inj (found.symm.trans lookup)
        exact ⟨changed, by simp [inside], index.trans at', term.trans in'⟩
      · exact ⟨present, by simpa [List.getElem?_set, same] using lookup, at', in'⟩ }

theorem Answers.setPending (answers : Answers codec ghost process)
    {pending : Nat → Option PendingCall}
    (registered : ∀ index waiting, pending index = some waiting → ∃ call,
      process.calls[waiting.caller]? = some call ∧ call.index = index ∧
        call.term = waiting.term) :
    Answers codec ghost { process with pending := pending } :=
  { answers with pending := registered }

theorem Answers.dropPending (answers : Answers codec ghost process) (index : Nat) :
    Answers codec ghost { process with
      pending := Function.update process.pending index none } := by
  refine answers.setPending ?_
  intro other waiting registered
  by_cases same : other = index
  · subst same
    simp at registered
  · rw [Function.update_of_ne same] at registered
    exact answers.pending other waiting registered

theorem Answers.answer (answers : Answers codec ghost process) {caller : Nat}
    {result : ApplyResult} (deserved : ∀ call, process.calls[caller]? = some call →
      result.err = none → Chosen ghost call.index (call.entry codec)) :
    Answers codec ghost (process.answer caller result) := by
  cases found : process.calls[caller]? with
  | none =>
    have outside := List.getElem?_eq_none_iff.mp found
    rwa [Process.answer, List.modify_eq_self outside]
  | some call =>
    rw [Process.answer, List.modify_eq_set_getElem?, found]
    have recorded := answers.calls caller call found
    refine answers.setCall found ⟨recorded.written, ?_, recorded.returned⟩ rfl rfl
    rintro other received fine
    cases received
    exact deserved call found fine

/-- The next entry to be applied is chosen. -/
theorem Replica.next_chosen [DecidableEq ι] {deployment : Deployment ι} {i : ι} {elections : Nat}
    {node : RaftNode} (replica : Replica deployment ghost i elections node)
    (behind : node.lastApplied < node.commitIndex) :
    Chosen ghost (node.log.get (node.lastApplied + 1)).index
      (node.log.get (node.lastApplied + 1)) := by
  obtain ⟨entry, found, chosen⟩ := replica.settled.chosen (Nat.succ_pos _) behind
  have read : node.log.get (node.lastApplied + 1) = entry := by
    rw [replica.log]
    exact Log.get_whole_of_found found
  have position : entry.index = node.lastApplied + 1 := replica.indexed _ _ found
  rwa [read, position]

/-- The apply loop hands on entries the node knows to be committed. -/
theorem Answers.apply (answers : Answers codec ghost process)
    (known : process.node.lastApplied < process.node.commitIndex →
      Chosen ghost (process.node.log.get (process.node.lastApplied + 1)).index
        (process.node.log.get (process.node.lastApplied + 1)))
    (moved : Process.ApplyTransition codec now process after) : Answers codec ghost after := by
  cases moved with
  | receiveSnapshot snap idle ready =>
    exact { answers with applying := by simp, delivering := by simp }
  | receiveCommit idle ready => exact { answers with applying := by simp, delivering := by simp }
  | restore snap holding =>
    exact { answers with
      applying := by simp
      delivering := by
        rintro msg ⟨rfl⟩
        trivial }
  | drained locked done => exact { answers with applying := by simp, delivering := by simp }
  | configure locked behind config =>
    exact { answers with applying := by simp, delivering := by simp }
  | take locked behind command =>
    exact { answers with
      applying := by
        rintro other ⟨rfl⟩
        exact known behind
      delivering := by simp }
  | apply entry holding =>
    exact { answers with
      applying := by simp
      delivering := by
        rintro msg ⟨rfl⟩
        exact ⟨entry, answers.applying entry holding, rfl⟩ }
  | deliver msg blocked room =>
    exact { answers with
      applying := by
        intro entry
        split <;> simp
      delivering := by
        intro other
        split <;> simp
      channel := by
        intro other member
        rcases List.mem_append.mp member with old | new
        · exact answers.channel other old
        · exact List.mem_singleton.mp new ▸ answers.delivering msg blocked }

theorem Answers.failAllPending (answers : Answers codec ghost process) :
    Answers codec ghost process.failAllPending where
  calls caller call found := by
    simp only [Process.failAllPending, List.getElem?_mapIdx, Option.map_eq_some_iff] at found
    obtain ⟨old, present, built⟩ := found
    have recorded := answers.calls caller old present
    have failed : Recorded codec ghost { old with inbox := some { err := some .notLeader } } :=
      ⟨recorded.written, (fun _ received fine => by cases received; cases fine),
        recorded.returned⟩
    split at built
    · split at built
      · exact built ▸ failed
      · exact built ▸ recorded
    · exact built ▸ recorded
  pending index waiting registered := by cases registered
  applying := answers.applying
  delivering := answers.delivering
  channel := answers.channel
  routing := answers.routing

/-- A result goes to a waiting call only if the entry applied is the call's own:
at one index a term wrote a single entry. -/
theorem Answers.route (answers : Answers codec ghost process) (sound : Consensus.Sound ghost)
    {index term : Nat} {command : Bytes} {result : ApplyResult}
    (truthful : Truthful ghost (.entry index term command result)) :
    Answers codec ghost (process.routeEntry index term result) := by
  obtain ⟨entry, chosen, stamped⟩ := truthful
  unfold Process.routeEntry
  split
  · exact answers
  · rename_i waiting registered
    obtain ⟨call, found, at', in'⟩ := answers.pending index waiting registered
    have dropped := answers.dropPending index
    dsimp only
    split
    · exact dropped.answer fun _ _ fine => by cases fine
    · rename_i current
      refine dropped.answer ?_
      intro other lookup _
      cases Option.some.inj (found.symm.trans lookup)
      have written := sound.chosen_written chosen
      rw [stamp_entry, stamped, ← not_not.mp current, ← in', ← at'] at written
      rcases (answers.calls _ call found).written with none | submitted
      · exact absurd (at'.symm.trans none) (Nat.ne_of_gt chosen.1)
      · have same := Option.some.inj (written.symm.trans submitted)
        rw [at', ← same]
        exact chosen

theorem Answers.read (answers : Answers codec ghost process) (sound : Consensus.Sound ghost)
    {saved : Bool} (moved : Process.ReadTransition codec process saved after) :
    Answers codec ghost after := by
  cases moved with
  | receive msg rest idle ready =>
    exact { answers with
      channel := fun other member => answers.channel other (by simp [ready, member])
      routing := by
        rintro other ⟨rfl⟩
        exact answers.channel msg (by simp [ready]) }
  | routeSnapshot index term data holding =>
    exact { answers.failAllPending with routing := by simp }
  | routeEntry index term command result reader holding next =>
    have counted : Answers codec ghost { process with applied := process.applied + 1 } :=
      { answers with }
    exact { counted.route sound (answers.routing _ holding) with
      routing := by rcases next with rfl | rfl <;> simp }
  | capture due => exact { answers with routing := by simp }
  | take data holding => exact { answers with routing := by simp }

theorem Answers.addCall (answers : Answers codec ghost process) {call : ClientCall}
    (recorded : Recorded codec ghost call) :
    Answers codec ghost { process with calls := process.calls ++ [call] } :=
  { answers with
    calls := by
      intro caller present lookup
      rcases getElem?_snoc_cases lookup with old | ⟨_, rfl⟩
      · exact answers.calls caller present old
      · exact recorded
    pending := by
      intro index waiting registered
      obtain ⟨present, lookup, rest⟩ := answers.pending index waiting registered
      have inside := (List.getElem?_eq_some_iff.mp lookup).1
      exact ⟨present, by rwa [List.getElem?_append_left inside], rest⟩ }

theorem Answers.registerCall (answers : Answers codec ghost process) {caller : Nat}
    (stepped : process.registerCall caller = some after) : Answers codec ghost after := by
  obtain ⟨call, found, _, rfl⟩ := Process.registerCall_cases stepped
  have inside := (List.getElem?_eq_some_iff.mp found).1
  have recorded := answers.calls caller call found
  have waits : Recorded codec ghost { call with state := .waiting } :=
    ⟨recorded.written, recorded.answered, by simp⟩
  have marked := answers.setCall found waits rfl rfl
  refine marked.setPending ?_
  intro index waiting registered
  by_cases same : index = call.index
  · subst same
    simp only [Function.update_self, Option.some.injEq] at registered
    subst registered
    exact ⟨{ call with state := .waiting }, by simp [inside], rfl, rfl⟩
  · rw [Function.update_of_ne same] at registered
    exact marked.pending index waiting registered

theorem Answers.finishCall (answers : Answers codec ghost process) {caller : Nat}
    (stepped : process.finishCall caller = some after) : Answers codec ghost after := by
  obtain ⟨call, result, outcome, found, _, received, decided, rfl⟩ :=
    Process.finishCall_cases stepped
  have recorded := answers.calls caller call found
  have returns : Recorded codec ghost
      { call with state := .returned outcome, inbox := none } := by
    refine ⟨recorded.written, by simp, ?_⟩
    intro value done
    cases failure : result.err with
    | none => exact recorded.answered result received failure
    | some err => simp [decided, failure] at done
  exact answers.setCall found returns rfl rfl

theorem Answers.timeOutCall (answers : Answers codec ghost process) {caller : Nat}
    (stepped : process.timeOutCall caller = some after) : Answers codec ghost after := by
  obtain ⟨call, found, _, rfl⟩ := Process.timeOutCall_cases stepped
  have recorded := answers.calls caller call found
  have expires : Recorded codec ghost { call with state := .returned (.error .timeout) } :=
    ⟨recorded.written, recorded.answered, by simp⟩
  exact (answers.dropPending call.index).setCall found expires rfl rfl

end Transitions

end RaftGo
