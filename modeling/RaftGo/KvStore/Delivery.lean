import RaftGo.KvStore.Results
import RaftGo.Raft.Formed

/-! Results are delivered. `Submit` starts replication before the call is put into
`pending`, so the result may come first and is then discarded. Where no index is used
again this is the only way to lose one. -/

namespace RaftGo.KvStore

open Raft Library

/-- Entries for the indices right behind `offset`, each with a term. -/
def Numbered (offset : Nat) (entries : List LogEntry) : Prop :=
  entries.map (·.index) = List.range' (offset + 1) entries.length ∧
    ∀ entry ∈ entries, entry.term ≠ 0

instance (offset : Nat) (entries : List LogEntry) : Decidable (Numbered offset entries) :=
  inferInstanceAs (Decidable (_ ∧ _))

theorem Numbered.consecutive {offset : Nat} {entries : List LogEntry}
    (numbered : Numbered offset entries) : Consecutive entries offset entries where
  placed position entry found := by
    have index := congrArg (·[position]?) numbered.1
    have inside := (List.getElem?_eq_some_iff.mp found).1
    simp only [List.getElem?_map, found, Option.map_some, List.getElem?_range' inside,
      Option.some.injEq] at index
    omega
  stamped := numbered.2
  created entry member _ := member

/-- No index is used again: an `AppendEntries` that passes the term check brings
entries in their place, and none of them conflicts with the log. -/
def Extends (process : Process) : Input → Prop
  | .appendEntries args => process.node.currentTerm ≤ args.term →
      Numbered args.prevLogIndex args.entries ∧
      ∀ entry ∈ args.entries, process.node.log.snapshotIndex < entry.index →
        entry.index ≤ process.node.log.lastIndex →
          (process.node.log.get entry.index).term = entry.term
  | _ => True

instance (process : Process) (input : Input) : Decidable (Extends process input) := by
  induction input using Input.casesOn with
  | appendEntries args =>
    exact inferInstanceAs (Decidable (_ → _ ∧ ∀ entry ∈ args.entries, _ → _ → _))
  | _ => exact isTrue trivial

/-- An `AppendEntries` that passes the term check brings entries in their place. -/
def Places (process : Process) : Input → Prop
  | .appendEntries args => process.node.currentTerm ≤ args.term →
      Numbered args.prevLogIndex args.entries
  | _ => True

instance (process : Process) (input : Input) : Decidable (Places process input) := by
  induction input using Input.casesOn with
  | appendEntries args => exact inferInstanceAs (Decidable (_ → _))
  | _ => exact isTrue trivial

section

variable {codec : Codec} {now : Nat} {process after : Process} {input : Input}

theorem Extends.places (extends' : Extends process input) : Places process input := by
  cases input with
  | appendEntries args => exact fun current => (extends' current).1
  | _ => trivial

theorem Extends.harmless (extends' : Extends process input) (inOrder : InOrder process.node) :
    Harmless process input := by
  cases input with
  | appendEntries args =>
    intro current entry member above committed
    exact (extends' current).2 entry member above (Nat.le_trans committed inOrder.committed)
  | _ => trivial

theorem lastIndex_step (extends' : Extends process input)
    (stepped : process.step codec now input = some after) :
    process.node.log.lastIndex ≤ after.node.log.lastIndex := by
  cases Process.progress_step stepped with
  | rests same => rw [same.log]
  | appends entry leads index term log commitIndex lastApplied =>
    rw [log, Log.lastIndex_append]
    exact Nat.le_add_right _ _
  | merges args request current agrees log commitIndex lastApplied =>
    subst request
    rw [log]
    exact (process.node.log.mergeEntries_keeps_agreed (Nat.le_refl _) (extends' current).2).reach
  | commits leads log ahead own lastApplied => rw [log]
  | compacts term ahead log commitIndex lastApplied =>
    rw [log, Log.lastIndex_compactTo]
    exact Nat.le_max_left _ _
  | installs args saved request ahead log commitIndex lastApplied =>
    rw [log, Log.lastIndex_compactTo]
    exact Nat.le_max_left _ _
  | takes behind taken log commitIndex lastApplied => rw [log]

theorem formed_step (places : Places process input) (inOrder : InOrder process.node)
    (formed : ∃ changes, process.node.log.Formed changes)
    (stepped : process.step codec now input = some after) :
    ∃ changes, after.node.log.Formed changes := by
  obtain ⟨changes, formed⟩ := formed
  cases Process.progress_step stepped with
  | rests same => exact ⟨changes, same.log ▸ formed⟩
  | appends entry leads index term log commitIndex lastApplied =>
    have stamped : entry.term ≠ 0 := term ▸ inOrder.elected (by simp [leads])
    refine ⟨entry :: changes, log ▸ ?_⟩
    exact (formed.mono (List.subset_cons_self _ _)).append
      (.singleton index stamped fun _ => List.mem_cons_self)
  | merges args request current agrees log commitIndex lastApplied =>
    subst request
    have sent := (places current).consecutive
    refine ⟨changes ++ args.entries, log ▸ ?_⟩
    exact (formed.mono (List.subset_append_left _ _)).mergeEntries
      (sent.mono (List.subset_append_right _ _)) (RaftNode.prevLogIndex_le agrees)
  | commits leads log ahead own lastApplied => exact ⟨changes, log ▸ formed⟩
  | compacts term ahead log commitIndex lastApplied =>
    exact ⟨changes, log ▸ formed.compactTo _ _⟩
  | installs args saved request ahead log commitIndex lastApplied =>
    exact ⟨changes, log ▸ formed.compactTo _ _⟩
  | takes behind taken log commitIndex lastApplied => exact ⟨changes, log ▸ formed⟩

theorem index_of_taken? (inOrder : InOrder process.node)
    (formed : ∃ changes, process.node.log.Formed changes) {entry : LogEntry}
    (taken : process.taken? input = some entry) :
    entry.index = process.node.lastApplied + 1 := by
  obtain ⟨changes, formed⟩ := formed
  have behind := Process.behind_of_taken? taken
  have boundary := inOrder.boundary
  have committed := inOrder.committed
  rw [Process.eq_get_of_taken? taken]
  exact (formed.get (by omega) (by omega)).2

end

/-- The messages routed in a run, in order. -/
def routed (moves : List (Move Process (Nat × Input))) : List ApplyMsg :=
  moves.filterMap fun move => move.before.consumed? move.event.2

theorem routed_snoc (moves : List (Move Process (Nat × Input)))
    (move : Move Process (Nat × Input)) : routed (moves ++ [move]) =
      routed moves ++ (move.before.consumed? move.event.2).toList := by
  unfold routed
  cases found : move.before.consumed? move.event.2 <;> simp [found]

def ApplyMsg.index : ApplyMsg → Nat
  | .entry index .. => index
  | .snapshot index .. => index

/-- The indices of the entries among messages. -/
def entryIndices (msgs : List ApplyMsg) : List Nat :=
  (msgs.filter (!·.isSnapshot)).map ApplyMsg.index

theorem mem_entryIndices {msgs : List ApplyMsg} {index : Nat} :
    index ∈ entryIndices msgs ↔ ∃ msg ∈ msgs, msg.isSnapshot = false ∧ msg.index = index := by
  simp [entryIndices, and_assoc]

theorem entryIndices_append (first second : List ApplyMsg) :
    entryIndices (first ++ second) = entryIndices first ++ entryIndices second := by
  simp [entryIndices]

theorem index_outcomes (codec : Codec) (data : Data) (entries : List LogEntry) :
    (outcomes codec data entries).map ApplyMsg.index = entries.map (·.index) := by
  induction entries generalizing data with
  | nil => rfl
  | cons entry rest ih => simp [outcomes, ApplyMsg.index, ih]

theorem isSnapshot_outcomes (codec : Codec) (data : Data) (entries : List LogEntry) :
    ∀ msg ∈ outcomes codec data entries, msg.isSnapshot = false := by
  induction entries generalizing data with
  | nil => simp [outcomes]
  | cons entry rest ih =>
    intro msg member
    rcases List.mem_cons.mp member with rfl | later
    · rfl
    · exact ih _ msg later

/-- In a run without installed snapshots whose log only grows: every message on its
way or routed already is the result of an entry applied, for an index of its own. -/
structure Orderly (codec : Codec) (start : Process) (moves : List (Move Process (Nat × Input)))
    (process : Process) : Prop where
  sequenced : Sequenced codec start moves process
  inOrder : InOrder process.node
  formed : ∃ changes, process.node.log.Formed changes
  numbers : (taken moves).map (·.index) = processed moves
  flow : routed moves ++ process.inTransit = outcomes codec start.data (applied moves)

namespace Orderly

variable {codec : Codec} {start process after : Process}
  {moves : List (Move Process (Nat × Input))}

theorem nodup (orderly : Orderly codec start moves process) :
    ((routed moves ++ process.inTransit).map ApplyMsg.index).Nodup := by
  rw [orderly.flow, index_outcomes]
  have kept : (applied moves).Sublist (taken moves) :=
    (List.sublist_append_left _ _).trans (orderly.sequenced.passed ▸ List.filter_sublist)
  refine (kept.map _).nodup ?_
  rw [orderly.numbers, orderly.sequenced.indices]
  exact List.nodup_range'

theorem index_ne_zero (orderly : Orderly codec start moves process) {msg : ApplyMsg}
    (member : msg ∈ process.inTransit) : msg.index ≠ 0 := by
  have listed : msg.index ∈ (routed moves ++ process.inTransit).map ApplyMsg.index :=
    List.mem_map_of_mem (List.mem_append_right _ member)
  rw [orderly.flow, index_outcomes] at listed
  have kept : (applied moves).Sublist (taken moves) :=
    (List.sublist_append_left _ _).trans (orderly.sequenced.passed ▸ List.filter_sublist)
  have placed := (kept.map (·.index)).subset listed
  rw [orderly.numbers, orderly.sequenced.indices, List.mem_range'_1] at placed
  omega

theorem isSnapshot_eq (orderly : Orderly codec start moves process) {msg : ApplyMsg}
    (member : msg ∈ routed moves ++ process.inTransit) : msg.isSnapshot = false := by
  rw [orderly.flow] at member
  exact isSnapshot_outcomes codec start.data (applied moves) msg member

theorem entryIndices_routed (orderly : Orderly codec start moves process) :
    entryIndices (routed moves) = (routed moves).map ApplyMsg.index := by
  rw [entryIndices, List.filter_eq_self.mpr]
  intro msg member
  rw [orderly.isSnapshot_eq (List.mem_append_left _ member)]
  rfl

theorem step {event : Nat × Input} (orderly : Orderly codec start moves process)
    (noInstall : event.2.installs = false) (extends' : Extends process event.2)
    (stepped : (Process.system codec).step process event = some after) :
    Orderly codec start (moves ++ [⟨process, event, after⟩]) after := by
  obtain ⟨now, input⟩ := event
  have sequenced := orderly.sequenced.step noInstall stepped
  refine ⟨sequenced, orderly.inOrder.step (extends'.harmless orderly.inOrder) stepped,
    formed_step extends'.places orderly.inOrder orderly.formed stepped, ?_, ?_⟩
  · rw [taken_snoc, processed_snoc, List.map_append, orderly.numbers]
    cases took : process.taken? input with
    | none => simp
    | some entry => simp [index_of_taken? orderly.inOrder orderly.formed took]
  · have moved := Process.inTransit_step stepped
    have made : outcomes codec start.data (applied (moves ++ [⟨process, (now, input), after⟩])) =
        outcomes codec start.data (applied moves) ++ (process.made? codec input).toList := by
      rw [applied_snoc]
      cases input with
      | applyLoop branch =>
        cases place : process.loop with
        | apply entry =>
          simp only [Process.applied?, Process.made?, place, Option.toList_some]
          rw [outcomes_snoc, ← orderly.sequenced.data]
        | restore snap => exact absurd place (orderly.sequenced.place snap)
        | _ => simp [Process.applied?, Process.made?, place]
      | _ => simp [Process.applied?, Process.made?]
    rw [routed_snoc, made, ← orderly.flow, List.append_assoc, List.append_assoc, moved]

theorem initial {disk : Disk} {memory : PersistedState} (backs : disk.Backs memory)
    (numbered : Numbered memory.entries.snapshotIndex memory.entries.rest) (codec : Codec)
    (cfg : Config) (threshold boots : Nat) :
    Orderly codec (Process.start codec cfg threshold boots disk) []
      (Process.start codec cfg threshold boots disk) where
  sequenced := .initial codec cfg threshold boots disk
  inOrder := .start backs cfg threshold boots
  formed := by
    have log : (boot cfg disk).log = memory.entries :=
      congrArg PersistedState.entries ((memory_boot cfg disk).trans backs.recovered)
    refine ⟨memory.entries.rest, ?_⟩
    change (boot cfg disk).log.Formed _
    rw [log]
    exact ⟨numbered.consecutive, by rw [backs.marker]⟩
  numbers := rfl
  flow := rfl

end Orderly

/-- The call has been put into `pending`. -/
def CallState.registered : CallState → Bool
  | .submitted => false
  | _ => true

/-- When a result is routed, the call it is for stands in `pending` already. -/
def Awaited (process : Process) : Input → Prop
  | .readApplyCh _ => match process.reader with
    | .route (.entry index _ _ _) =>
      ∀ call ∈ process.calls, call.index = index → call.state.registered
    | _ => True
  | _ => True

instance (process : Process) (input : Input) : Decidable (Awaited process input) := by
  induction input using Input.casesOn with
  | readApplyCh saved =>
    change Decidable (match process.reader with
      | .route (.entry index _ _ _) =>
        ∀ call ∈ process.calls, call.index = index → call.state.registered
      | _ => True)
    cases process.reader with
    | route msg =>
      cases msg with
      | entry index term command result =>
        exact inferInstanceAs (Decidable (∀ call ∈ process.calls, _ → _))
      | snapshot index term data => exact isTrue trivial
    | _ => exact isTrue trivial
  | _ => exact isTrue trivial

/-- The wait of a call starts with its `select`: a value that is in the channel by
then, or sent before the five seconds are over, is what it receives. -/
def Prompt (process : Process) : Input → Prop
  | .timeOutCall caller => ∀ call ∈ process.calls[caller]?, call.inbox = none
  | _ => True

instance (process : Process) (input : Input) : Decidable (Prompt process input) := by
  induction input using Input.casesOn with
  | timeOutCall caller => exact inferInstanceAs (Decidable (∀ call ∈ process.calls[caller]?, _))
  | _ => exact isTrue trivial

/-- The call has the result in its channel or has returned it. -/
def ClientCall.Has (call : ClientCall) (result : ApplyResult) : Prop :=
  call.state = .waiting ∧ call.inbox = some result ∨ call.state = .returned result.outcome

theorem ClientCall.Has.step {codec : Codec} {now : Nat} {process after : Process} {input : Input}
    {caller : Nat} {call : ClientCall} {result : ApplyResult} (has : call.Has result)
    (registry : Registry process) (prompt : input = .timeOutCall caller → Prompt process input)
    (found : process.calls[caller]? = some call)
    (stepped : process.step codec now input = some after) :
    ∃ later, after.calls[caller]? = some later ∧ later.Has result := by
  obtain ⟨changed, lookup, moved⟩ := Process.callMove_step found stepped
  refine ⟨changed, lookup, ?_⟩
  cases moved with
  | keeps silent other => exact has
  | registers request fresh => rcases has with ⟨state, _⟩ | state <;> cases fresh.symm.trans state
  | receives other sent =>
    -- values are sent to calls with an empty channel only
    obtain ⟨known, _, present, _, _, _, waits, empty⟩ := registry.of_answer? sent
    cases Option.some.inj (found.symm.trans present)
    rcases has with ⟨_, full⟩ | state
    · cases empty.symm.trans full
    · cases waits.symm.trans state
  | finishes other request waits received =>
    rcases has with ⟨_, full⟩ | state
    · cases Option.some.inj (received.symm.trans full)
      exact .inr rfl
    · cases waits.symm.trans state
  | expires request waits =>
    subst request
    rcases has with ⟨_, full⟩ | state
    · cases (prompt rfl call found).symm.trans full
    · cases waits.symm.trans state

/-- The call, as long as it stands in `pending`. -/
def Process.standing? (process : Process) (caller : Nat) : Option ClientCall :=
  process.calls[caller]?.filter fun call => process.pending call.index = some ⟨call.term, caller⟩

theorem Process.standing?_eq_some {process : Process} {caller : Nat} {call : ClientCall} :
    process.standing? caller = some call ↔ process.calls[caller]? = some call ∧
      process.pending call.index = some ⟨call.term, caller⟩ := by
  simp [Process.standing?, Option.filter_eq_some_iff]

/-- While a call stands in `pending`, no other call registers or times out under its
index, and no snapshot is routed. -/
def Spares (caller : Nat) (process : Process) : Input → Prop
  | .registerCall other => other ≠ caller → ∀ call ∈ process.standing? caller,
      ∀ rival ∈ process.calls[other]?, rival.index ≠ call.index
  | .timeOutCall other => other ≠ caller → ∀ call ∈ process.standing? caller,
      ∀ rival ∈ process.calls[other]?, rival.index ≠ call.index
  | .readApplyCh _ => match process.reader with
    | .route (.snapshot ..) => process.standing? caller = none
    | _ => True
  | _ => True

instance (caller : Nat) (process : Process) (input : Input) :
    Decidable (Spares caller process input) := by
  induction input using Input.casesOn with
  | registerCall other =>
    exact inferInstanceAs (Decidable (_ → ∀ call ∈ process.standing? caller, _))
  | timeOutCall other =>
    exact inferInstanceAs (Decidable (_ → ∀ call ∈ process.standing? caller, _))
  | readApplyCh saved =>
    change Decidable (match process.reader with
      | .route (.snapshot ..) => process.standing? caller = none
      | _ => True)
    cases process.reader with
    | route msg =>
      cases msg with
      | entry index term command result => exact isTrue trivial
      | snapshot index term data => exact inferInstanceAs (Decidable (_ = _))
    | _ => exact isTrue trivial
  | _ => exact isTrue trivial

section

variable {codec : Codec} {now : Nat} {process after : Process} {input : Input} {caller : Nat}
  {call : ClientCall}

/-- What is routed to nobody leaves a registered call where it is. -/
theorem Spares.standing_step (spared : Spares caller process input)
    (stepped : process.step codec now input = some after)
    (standing : process.standing? caller = some call)
    (silent : process.answer? input caller = none) (other : input.caller? ≠ some caller) :
    after.pending call.index = some ⟨call.term, caller⟩ := by
  obtain ⟨found, registered⟩ := Process.standing?_eq_some.mp standing
  cases Process.pendingMove_step stepped with
  | keeps same _ _ => exact same ▸ registered
  | routes saved index term command result request holding removed =>
    have elsewhere : call.index ≠ index := by
      rintro rfl
      subst request
      rw [Process.answer?_entry saved caller holding, registered] at silent
      simp at silent
    rw [removed, Function.update_of_ne elsewhere, registered]
  | drains saved index term data request holding drained =>
    subst request
    simp only [Spares, holding, standing] at spared
    cases spared
  | registers rival call' request found' fresh added =>
    subst request
    have apart : rival ≠ caller := fun own => other (congrArg some own)
    have elsewhere := spared apart call standing call' found'
    rw [added, Function.update_of_ne elsewhere.symm, registered]
  | expires rival call' request found' removed =>
    subst request
    have apart : rival ≠ caller := fun own => other (congrArg some own)
    have elsewhere := spared apart call standing call' found'
    rw [removed, Function.update_of_ne elsewhere.symm, registered]

/-- What a call is sent comes with a message for its index. -/
theorem Spares.routed_of_answer? (spared : Spares caller process input)
    (registry : Registry process) {result : ApplyResult}
    (found : process.calls[caller]? = some call)
    (sent : process.answer? input caller = some result) :
    ∃ msg, process.consumed? input = some msg ∧ msg.isSnapshot = false ∧
      msg.index = call.index := by
  obtain ⟨known, waiting, present, registered, own, term, _⟩ := registry.of_answer? sent
  cases Option.some.inj (found.symm.trans present)
  cases Process.answering_of_answer? sent with
  | entry saved index since command outcome answered holding standing same =>
    have routing : process.consumed? (.readApplyCh saved) =
        some (.entry index since command outcome) := by simp only [Process.consumed?, holding]
    exact ⟨_, routing, rfl, (registry.index_of standing (same ▸ found)).symm⟩
  | snapshot saved index since data place answered holding =>
    have standing : process.standing? caller = some call := by
      refine Process.standing?_eq_some.mpr ⟨found, ?_⟩
      rw [registered, ← own, ← term]
    simp only [Spares, holding, standing] at spared
    cases spared

theorem Process.has_of_routed (stepped : process.step codec now input = some after)
    {command : Bytes} {result : ApplyResult}
    (consumed : process.consumed? input = some (.entry call.index call.term command result))
    (standing : process.standing? caller = some call) (waits : call.state = .waiting) :
    ∃ later, after.calls[caller]? = some later ∧ later.Has result := by
  obtain ⟨found, registered⟩ := Process.standing?_eq_some.mp standing
  cases input with
  | readApplyCh saved =>
    have sent := Process.answer?_entry saved caller (Process.reader_of_consumed? consumed)
    rw [registered] at sent
    simp only [Option.bind_some, ↓reduceIte, ne_eq, not_true_eq_false] at sent
    obtain ⟨changed, lookup, moved⟩ := Process.callMove_step found stepped
    refine ⟨changed, lookup, ?_⟩
    cases moved with
    | keeps silent other => cases silent.symm.trans sent
    | registers request fresh => cases request
    | receives other sent' =>
      cases Option.some.inj (sent'.symm.trans sent)
      exact .inl ⟨waits, rfl⟩
    | finishes other request _ _ => cases request
    | expires request _ => cases request
  | _ => cases consumed

end

/-- One call in a run that spares its registration: without a result it stands in
`pending`, and a result has come with a message for its index. -/
structure Served (caller : Nat) (moves : List (Move Process (Nat × Input)))
    (process : Process) : Prop where
  registry : Registry process
  waiting : ∀ call, process.calls[caller]? = some call → call.state = .waiting →
    call.inbox = none → process.pending call.index = some ⟨call.term, caller⟩
  answered : ∀ call, process.calls[caller]? = some call → call.index ≠ 0 →
    call.state ≠ .submitted → call.state ≠ .returned (.error .timeout) →
      (call.state = .waiting → call.inbox ≠ none) → call.index ∈ entryIndices (routed moves)

namespace Served

variable {codec : Codec} {process after : Process} {now : Nat} {input : Input} {caller : Nat}
  {moves : List (Move Process (Nat × Input))}

theorem start (caller : Nat) (codec : Codec) (cfg : Config) (threshold boots : Nat)
    (disk : Disk) : Served caller [] (Process.start codec cfg threshold boots disk) where
  registry := .start codec cfg threshold boots disk
  waiting call found := by simp [Process.start] at found
  answered call found := by simp [Process.start] at found

theorem waiting_step (served : Served caller moves process) (spared : Spares caller process input)
    (stepped : process.step codec now input = some after) (call : ClientCall)
    (found : after.calls[caller]? = some call) (waits : call.state = .waiting)
    (empty : call.inbox = none) : after.pending call.index = some ⟨call.term, caller⟩ := by
  cases Process.callOrigin_step stepped found with
  | refused _ _ _ done => cases done.symm.trans waits
  | submitted _ _ _ fresh => cases fresh.symm.trans waits
  | moved before present move =>
    cases move with
    | keeps silent other =>
      have standing := Process.standing?_eq_some.mpr
        ⟨present, served.waiting _ present waits empty⟩
      exact spared.standing_step stepped standing silent other
    | registers request fresh =>
      subst request
      obtain ⟨known, present', _, rfl⟩ := Process.registerCall_cases stepped
      cases Option.some.inj (present.symm.trans present')
      exact Function.update_self _ _ _
    | receives result sent => cases empty
    | finishes result request _ received => cases waits
    | expires request _ => cases waits

theorem answered_step (served : Served caller moves process) (spared : Spares caller process input)
    (stepped : process.step codec now input = some after) (call : ClientCall)
    (found : after.calls[caller]? = some call) (indexed : call.index ≠ 0)
    (registered : call.state ≠ .submitted) (inTime : call.state ≠ .returned (.error .timeout))
    (full : call.state = .waiting → call.inbox ≠ none) :
    call.index ∈ entryIndices (routed (moves ++ [⟨process, (now, input), after⟩])) := by
  rw [routed_snoc, entryIndices_append, List.mem_append]
  cases Process.callOrigin_step stepped found with
  | refused _ _ _ _ unplaced => exact absurd unplaced indexed
  | submitted _ _ _ fresh => exact absurd fresh registered
  | moved before present move =>
    have earlier := served.answered before present
    cases move with
    | keeps silent other => exact .inl (earlier indexed registered inTime full)
    | registers request fresh =>
      exact absurd (served.registry.submitted caller before present fresh) (full rfl)
    | receives result sent =>
      obtain ⟨msg, consumed, entry, same⟩ :=
        spared.routed_of_answer? served.registry present sent
      refine .inr (mem_entryIndices.mpr ⟨msg, ?_, entry, same⟩)
      rw [Option.mem_toList]
      exact consumed
    | finishes result request waits received =>
      exact .inl (earlier indexed (by simp [waits]) (by simp [waits]) fun _ => by simp [received])
    | expires request waits => exact absurd rfl inTime

theorem step (served : Served caller moves process) (spared : Spares caller process input)
    (stepped : process.step codec now input = some after) :
    Served caller (moves ++ [⟨process, (now, input), after⟩]) after where
  registry := served.registry.step stepped
  waiting := served.waiting_step spared stepped
  answered := served.answered_step spared stepped

/-- A registered call receives the first result routed for its index, if the term is
its own. -/
theorem has_of_consumed (served : Served caller moves process)
    (stepped : process.step codec now input = some after) {index term : Nat} {command : Bytes}
    {result : ApplyResult}
    (consumed : process.consumed? input = some (.entry index term command result))
    (first : index ∉ entryIndices (routed moves)) (indexed : index ≠ 0) {call : ClientCall}
    (found : process.calls[caller]? = some call) (at' : call.index = index)
    (since : call.term = term) (registered : call.state ≠ .submitted)
    (inTime : call.state ≠ .returned (.error .timeout)) :
    ∃ later, after.calls[caller]? = some later ∧ later.Has result := by
  subst at' since
  have waits : call.state = .waiting ∧ call.inbox = none := by
    by_contra full
    exact first (served.answered call found indexed registered inTime
      fun state empty => full ⟨state, empty⟩)
  have standing := Process.standing?_eq_some.mpr
    ⟨found, served.waiting call found waits.1 waits.2⟩
  exact Process.has_of_routed stepped consumed standing waits.1

end Served

/-- Calls in a run whose indices are used once: they have different indices, and the
ones without a result stand in `pending`. -/
structure Delivers (codec : Codec) (start : Process) (moves : List (Move Process (Nat × Input)))
    (process : Process) : Prop where
  orderly : Orderly codec start moves process
  registry : Registry process
  bounded : ∀ (caller : Nat) (call : ClientCall), process.calls[caller]? = some call →
    call.index ≤ process.node.log.lastIndex
  distinct : ∀ (caller other : Nat) (call call' : ClientCall),
    process.calls[caller]? = some call → process.calls[other]? = some call' →
      call.index = call'.index → call.index ≠ 0 → caller = other
  waiting : ∀ (caller : Nat) (call : ClientCall), process.calls[caller]? = some call →
    call.state = .waiting → call.inbox = none →
      process.pending call.index = some ⟨call.term, caller⟩
  answered : ∀ (caller : Nat) (call : ClientCall), process.calls[caller]? = some call →
    call.index ≠ 0 → call.state ≠ .submitted → call.state ≠ .returned (.error .timeout) →
      (call.state = .waiting → call.inbox ≠ none) →
        ∃ msg ∈ routed moves, msg.index = call.index

namespace Delivers

variable {codec : Codec} {start process after : Process} {now : Nat} {input : Input}
  {moves : List (Move Process (Nat × Input))}

theorem bounded_step (delivers : Delivers codec start moves process)
    (extends' : Extends process input) (stepped : process.step codec now input = some after)
    (caller : Nat) (call : ClientCall) (found : after.calls[caller]? = some call) :
    call.index ≤ after.node.log.lastIndex := by
  cases Process.callOrigin_step stepped found with
  | refused _ _ _ _ unplaced => exact unplaced ▸ Nat.zero_le _
  | submitted _ _ _ _ index _ _ appended =>
    obtain ⟨changes, formed⟩ :=
      formed_step extends'.places delivers.orderly.inOrder delivers.orderly.formed stepped
    obtain ⟨position, lookup⟩ := List.getElem?_of_mem appended
    have placed : process.node.log.lastIndex + 1 = _ := formed.entries.placed position _ lookup
    have inside := (List.getElem?_eq_some_iff.mp lookup).1
    rw [Log.lastIndex_eq]
    omega
  | moved before present move =>
    rw [move.same.2.1]
    exact Nat.le_trans (delivers.bounded caller before present) (lastIndex_step extends' stepped)

/-- An index is either that of a call made before or one the log has not reached. -/
theorem index_back (stepped : process.step codec now input = some after) {caller : Nat}
    {call : ClientCall} (found : after.calls[caller]? = some call) (indexed : call.index ≠ 0) :
    (∃ before, process.calls[caller]? = some before ∧ before.index = call.index) ∨
      caller = process.calls.length ∧ call.index = process.node.log.lastIndex + 1 := by
  cases Process.callOrigin_step stepped found with
  | refused _ _ _ _ unplaced => exact absurd unplaced indexed
  | submitted absent request _ _ index =>
    refine .inr ⟨?_, index⟩
    subst request
    cases stepped
    have outside := List.getElem?_eq_none_iff.mp absent
    have inside := (List.getElem?_eq_some_iff.mp found).1
    have grown : (process.startCall codec call.op).calls.length = process.calls.length + 1 := by
      rcases process.startCall_cases codec call.op with ⟨_, refused⟩ | ⟨_, accepted⟩
      · simp [refused]
      · simp [accepted]
    omega
  | moved before present move => exact .inl ⟨before, present, move.same.2.1.symm⟩

theorem distinct_step (delivers : Delivers codec start moves process)
    (stepped : process.step codec now input = some after) (caller other : Nat)
    (call call' : ClientCall) (found : after.calls[caller]? = some call)
    (found' : after.calls[other]? = some call') (same : call.index = call'.index)
    (indexed : call.index ≠ 0) : caller = other := by
  rcases index_back stepped found indexed with ⟨before, present, index⟩ | ⟨last, index⟩ <;>
    rcases index_back stepped found' (same ▸ indexed) with ⟨before', present', index'⟩ |
      ⟨last', index'⟩
  · exact delivers.distinct caller other before before' present present'
      (index.trans (same.trans index'.symm)) (index ▸ indexed)
  · have bound := delivers.bounded caller before present
    omega
  · have bound := delivers.bounded other before' present'
    omega
  · rw [last, last']

/-- Registrations and time-outs of other calls concern other indices. -/
theorem spares (delivers : Delivers codec start moves process) (caller : Nat) :
    Spares caller process input := by
  have apart (rival : Nat) (different : rival ≠ caller) (call : ClientCall)
      (standing : process.standing? caller = some call) (call' : ClientCall)
      (found' : process.calls[rival]? = some call') : call'.index ≠ call.index := by
    intro same
    obtain ⟨found, registered⟩ := Process.standing?_eq_some.mp standing
    obtain ⟨known, present, _, _, waits, _⟩ := delivers.registry.pending _ _ registered
    cases Option.some.inj (found.symm.trans present)
    have indexed := delivers.registry.placed caller call found (.inr waits)
    exact different (delivers.distinct caller rival call call' found found' same.symm indexed).symm
  cases input with
  | registerCall rival => exact apart rival
  | timeOutCall rival => exact apart rival
  | readApplyCh saved =>
    cases place : process.reader with
    | route msg =>
      cases msg with
      | entry index term command result => simp [Spares, place]
      | snapshot index term data =>
        have member : ApplyMsg.snapshot index term data ∈ routed moves ++ process.inTransit := by
          simp [Process.inTransit, place, Reader.inHand]
        cases delivers.orderly.isSnapshot_eq member
    | _ => simp [Spares, place]
  | _ => trivial

theorem served (delivers : Delivers codec start moves process) (caller : Nat) :
    Served caller moves process where
  registry := delivers.registry
  waiting := delivers.waiting caller
  answered call found indexed registered inTime full := by
    rw [delivers.orderly.entryIndices_routed]
    exact List.mem_map.mpr (delivers.answered caller call found indexed registered inTime full)

theorem step {event : Nat × Input} (delivers : Delivers codec start moves process)
    (noInstall : event.2.installs = false) (extends' : Extends process event.2)
    (stepped : (Process.system codec).step process event = some after) :
    Delivers codec start (moves ++ [⟨process, event, after⟩]) after where
  orderly := delivers.orderly.step noInstall extends' stepped
  registry := delivers.registry.step stepped
  bounded := delivers.bounded_step extends' stepped
  distinct := delivers.distinct_step stepped
  waiting caller := (delivers.served caller).waiting_step (delivers.spares caller) stepped
  answered caller call found indexed registered inTime full := by
    have routed := (delivers.served caller).answered_step (delivers.spares caller) stepped call
      found indexed registered inTime full
    obtain ⟨msg, member, _, same⟩ := mem_entryIndices.mp routed
    exact ⟨msg, member, same⟩

theorem initial {disk : Disk} {memory : PersistedState} (backs : disk.Backs memory)
    (numbered : Numbered memory.entries.snapshotIndex memory.entries.rest) (codec : Codec)
    (cfg : Config) (threshold boots : Nat) :
    Delivers codec (Process.start codec cfg threshold boots disk) []
      (Process.start codec cfg threshold boots disk) where
  orderly := .initial backs numbered codec cfg threshold boots
  registry := .start codec cfg threshold boots disk
  bounded caller call found := by simp [Process.start] at found
  distinct caller other call call' found := by simp [Process.start] at found
  waiting caller call found := by simp [Process.start] at found
  answered caller call found := by simp [Process.start] at found

/-- A call that waits for the message routed receives its result. -/
theorem has_of_consumed (delivers : Delivers codec start moves process)
    (awaited : Awaited process input) (stepped : process.step codec now input = some after)
    {index term : Nat} {command : Bytes} {result : ApplyResult}
    (consumed : process.consumed? input = some (.entry index term command result))
    {caller : Nat} {call : ClientCall} (found : process.calls[caller]? = some call)
    (at' : call.index = index) (since : call.term = term)
    (inTime : call.state ≠ .returned (.error .timeout)) :
    ∃ later, after.calls[caller]? = some later ∧ later.Has result := by
  have flying := Process.mem_inTransit_of_consumed? consumed
  have first : index ∉ entryIndices (routed moves) := by
    rw [delivers.orderly.entryIndices_routed]
    intro earlier
    have apart := (List.nodup_append.mp (List.map_append ▸ delivers.orderly.nodup)).2.2
    exact apart index earlier index (List.mem_map_of_mem flying) rfl
  have registered : call.state ≠ .submitted := by
    cases input with
    | readApplyCh saved =>
      simp only [Awaited, Process.reader_of_consumed? consumed] at awaited
      have state := awaited call (List.mem_of_getElem? found) at'
      intro fresh
      rw [fresh] at state
      cases state
    | _ => cases consumed
  exact (delivers.served caller).has_of_consumed stepped consumed first
    (delivers.orderly.index_ne_zero flying) found at' since registered inTime

end Delivers

/-- A call that had not timed out when the result for its index and term was routed
has this result in its channel or has returned it. -/
def ResultsArrive (moves : List (Move Process (Nat × Input))) (process : Process) : Prop :=
  ∀ move ∈ moves, ∀ index term command result,
    move.before.consumed? move.event.2 = some (.entry index term command result) →
    ∀ (caller : Nat) (call : ClientCall), move.before.calls[caller]? = some call →
      call.index = index → call.term = term → call.state ≠ .returned (.error .timeout) →
      ∃ later, process.calls[caller]? = some later ∧ later.Has result

/-- Without installed snapshots and without reuse of indices, results arrive if each
is routed after its call has been put into `pending`. -/
theorem result_delivery {codec : Codec} {cfg : Config} {threshold boots : Nat} {disk : Disk}
    {memory : PersistedState} (backs : disk.Backs memory)
    (numbered : Numbered memory.entries.snapshotIndex memory.entries.rest)
    {moves : List (Move Process (Nat × Input))} {process : Process}
    (trace : (Process.system codec).Trace (fun process event => event.2.installs = false ∧
        Extends process event.2 ∧ Prompt process event.2 ∧ Awaited process event.2)
      (Process.start codec cfg threshold boots disk) moves process) :
    ResultsArrive moves process := by
  have run : Delivers codec (Process.start codec cfg threshold boots disk) moves process ∧
      ResultsArrive moves process := by
    refine trace.record (fun moves process => Delivers codec
      (Process.start codec cfg threshold boots disk) moves process ∧ ResultsArrive moves process)
      ⟨.initial backs numbered codec cfg threshold boots, by simp [ResultsArrive]⟩ ?_
    rintro moves process event after ⟨delivers, arrive⟩ ⟨noInstall, extends', prompt, awaited⟩
      stepped
    refine ⟨delivers.step noInstall extends' stepped, ?_⟩
    intro move member index term command result consumed caller call found at' since inTime
    rcases List.mem_append.mp member with old | last
    · obtain ⟨later, lookup, has⟩ :=
        arrive move old index term command result consumed caller call found at' since inTime
      exact has.step delivers.registry (fun _ => prompt) lookup stepped
    · cases List.mem_singleton.mp last
      exact delivers.has_of_consumed awaited stepped consumed found at' since inTime
  exact run.2

/-- The result is routed to a call that waits, which returns it. -/
theorem result_delivery_leader :
    ∃ moves process, (Process.system Codec.sample).Trace (fun process event =>
        event.2.installs = false ∧ Extends process event.2 ∧ Prompt process event.2 ∧
          Awaited process event.2) (follower 100) moves process ∧
      routed moves = [.entry 1 1 [] {}] ∧ ResultsArrive moves process := by
  obtain ⟨moves, process, trace, checked⟩ := (Process.system Codec.sample).exists_trace
    (fun process event => event.2.installs = false ∧ Extends process event.2 ∧
      Prompt process event.2 ∧ Awaited process event.2) (follower 100)
    (setSubmitted ++ (0, .registerCall 0) :: setApplied ++ [(0, .readApplyCh true),
      (0, .readApplyCh true), (0, .finishCall 0)])
    (fun moves _ => decide (routed moves = [.entry 1 1 [] {}])) (by decide +kernel)
  refine ⟨moves, process, trace, of_decide_eq_true checked, ?_⟩
  exact result_delivery Disk.Backs.empty (by decide) trace

/-- The entry is committed, applied and routed before `call` gets to the map: the
caller waits five seconds for a result that has been discarded. -/
theorem result_lost_before_registration :
    ∃ moves process, (Process.system Codec.sample).Trace (fun process event =>
        event.2.installs = false ∧ Extends process event.2 ∧ Prompt process event.2)
        (follower 100) moves process ∧
      process.calls[0]? = some (setCall (.returned (.error .timeout))) ∧
      ¬ ResultsArrive moves process := by
  obtain ⟨moves, process, trace, checked⟩ := (Process.system Codec.sample).exists_trace
    (fun process event => event.2.installs = false ∧ Extends process event.2 ∧
      Prompt process event.2) (follower 100)
    (setSubmitted ++ setApplied ++ [(0, .readApplyCh true), (0, .readApplyCh true),
      (0, .registerCall 0), (5000, .timeOutCall 0)])
    (fun moves process => (moves.any fun move =>
        move.before.consumed? move.event.2 = some (.entry 1 1 [] {}) &&
        move.before.calls[0]? = some (setCall .submitted)) &&
      process.calls[0]? = some (setCall (.returned (.error .timeout)))) (by decide +kernel)
  simp only [Bool.and_eq_true, List.any_eq_true, decide_eq_true_eq] at checked
  obtain ⟨⟨move, member, consumed, submitted⟩, expired⟩ := checked
  refine ⟨moves, process, trace, expired, fun arrive => ?_⟩
  obtain ⟨later, lookup, ⟨waits, _⟩ | outcome⟩ :=
    arrive move member 1 1 [] {} consumed 0 _ submitted rfl rfl (by simp [setCall])
  · cases Option.some.inj (expired.symm.trans lookup)
    cases waits
  · cases Option.some.inj (expired.symm.trans lookup)
    cases outcome

end RaftGo.KvStore
