import RaftGo.KvStore.Application
import RaftGo.KvStore.Lives
import RaftGo.Raft.Formed

/-! Membership requests. A leader answers a call that its peer list satisfies already with
`nil` and appends nothing. The list shows an addition at once and a removal when it is
applied, so the answer is right only if no change that waits in the log undoes it. -/

namespace RaftGo

namespace Raft.RaftNode

variable {node after : RaftNode}

/-- The entries of the log that have not been applied. -/
def backlog (node : RaftNode) : List LogEntry :=
  node.log.rest.drop (node.lastApplied - node.log.snapshotIndex)

/-- The membership changes among them. -/
def waiting (node : RaftNode) : List LogEntry := node.backlog.filter (·.isConfig)

/-- The peers once these have been applied. -/
def eventual (node : RaftNode) : List String :=
  reconfigureAll node.config.selfAddr node.peers node.waiting

theorem backlog_frame (log : after.log = node.log)
    (lastApplied : after.lastApplied = node.lastApplied) : after.backlog = node.backlog := by
  rw [backlog, backlog, log, lastApplied]

theorem backlog_append {entry : LogEntry} (inside : node.lastApplied ≤ node.log.lastIndex)
    (log : after.log = node.log.append [entry])
    (lastApplied : after.lastApplied = node.lastApplied) :
    after.backlog = node.backlog ++ [entry] := by
  rw [Log.lastIndex_eq] at inside
  rw [backlog, backlog, log, lastApplied, Log.rest_append, Log.snapshotIndex_append,
    List.drop_append_of_le_length (by omega)]

theorem backlog_compactTo {term : Nat} (ahead : node.log.snapshotIndex < node.lastApplied)
    (log : after.log = node.log.compactTo node.lastApplied term)
    (lastApplied : after.lastApplied = node.lastApplied) : after.backlog = node.backlog := by
  rw [Log.compactTo_of_lt _ ahead] at log
  have boundary : after.log.snapshotIndex = node.lastApplied := by
    rw [log]
    rfl
  rw [backlog, backlog, boundary, lastApplied, log, Nat.sub_self, List.drop_zero]

theorem backlog_take (boundary : node.log.snapshotIndex ≤ node.lastApplied)
    (inside : node.lastApplied < node.log.lastIndex) (log : after.log = node.log)
    (lastApplied : after.lastApplied = node.lastApplied + 1) :
    node.backlog = node.log.get (node.lastApplied + 1) :: after.backlog := by
  rw [Log.lastIndex_eq] at inside
  have position : node.lastApplied + 1 - node.log.snapshotIndex - 1 =
      node.lastApplied - node.log.snapshotIndex := by omega
  have next : node.lastApplied + 1 - node.log.snapshotIndex =
      node.lastApplied - node.log.snapshotIndex + 1 := by omega
  rw [backlog, backlog, log, lastApplied, next, Log.get_of_gt _ (by omega), position,
    List.drop_eq_getElem_cons (by omega), List.getElem?_eq_getElem (by omega), Option.getD_some]

end Raft.RaftNode

namespace KvStore

open Raft Library

/-- Nobody else leads the term of the process, and the calls are about others. -/
def Sole (process : Process) : Input → Prop
  | .appendEntries args => args.term ≠ process.node.currentTerm
  | .installSnapshot args _ => args.term ≠ process.node.currentTerm
  | .addPeer rpcAddr => rpcAddr ≠ process.node.config.selfAddr
  | .removePeer rpcAddr => rpcAddr ≠ process.node.config.selfAddr
  | _ => True

instance decidableSole (process : Process) (input : Input) : Decidable (Sole process input) := by
  induction input using Input.casesOn with
  | appendEntries args => exact inferInstanceAs (Decidable (_ ≠ _))
  | installSnapshot args saved => exact inferInstanceAs (Decidable (_ ≠ _))
  | addPeer rpcAddr => exact inferInstanceAs (Decidable (_ ≠ _))
  | removePeer rpcAddr => exact inferInstanceAs (Decidable (_ ≠ _))
  | _ => exact isTrue trivial

def Leading (process : Process) (input : Input) : Prop :=
  process.node.state = .leader ∧ Sole process input

instance decidableLeading (process : Process) (input : Input) :
    Decidable (Leading process input) :=
  inferInstanceAs (Decidable (_ ∧ _))

namespace Process

variable {codec : Codec} {now : Nat} {process after : Process} {input : Input}

theorem currentTerm_of_leads (leads : process.node.state = .leader)
    (remains : after.node.state = .leader) (stepped : process.step codec now input = some after) :
    after.node.currentTerm = process.node.currentTerm := by
  cases standing_step stepped with
  | keeps state currentTerm => exact currentTerm
  | yields state later => cases remains.symm.trans state
  | stands state currentTerm => cases remains.symm.trans state
  | wins stood state currentTerm => cases leads.symm.trans stood

theorem stale_appendEntries {args : AppendEntriesArgs}
    (leading : Leading process (.appendEntries args)) (remains : after.node.state = .leader)
    (stepped : process.step codec now (.appendEntries args) = some after) :
    args.term < process.node.currentTerm := by
  have same := currentTerm_of_leads leading.1 remains stepped
  cases stepped
  by_contra current
  refine leading.2 ?_
  rw [← same]
  exact ((process.node.currentTerm_handleAppendEntries now args).trans
    (RaftNode.currentTerm_observeLeader (Nat.le_of_not_lt current))).symm

theorem stale_installSnapshot {args : InstallSnapshotArgs} {saved : Bool}
    (leading : Leading process (.installSnapshot args saved))
    (remains : after.node.state = .leader)
    (stepped : process.step codec now (.installSnapshot args saved) = some after) :
    args.term < process.node.currentTerm := by
  have same := currentTerm_of_leads leading.1 remains stepped
  have apart : args.term ≠ process.node.currentTerm := leading.2
  cases stepped
  have later : max process.node.currentTerm args.term = process.node.currentTerm :=
    (process.node.currentTerm_handleInstallSnapshot args saved).symm.trans same
  omega

theorem harmless_of_leading (leading : Leading process input)
    (remains : after.node.state = .leader) (stepped : process.step codec now input = some after) :
    Harmless process input := by
  cases input with
  | appendEntries args =>
    have stale := stale_appendEntries leading remains stepped
    exact fun current => absurd stale (Nat.not_lt.mpr current)
  | _ => trivial

/-- A process that leads applies its log from the front, and only calls extend it. -/
inductive Queued (process : Process) (input : Input) (after : Process) : Prop where
  | rests (created : process.created? input = none) (taken : process.taken? input = none)
      (same : after.node.backlog = process.node.backlog)
  | command (created : process.created? input = none) (taken : process.taken? input = none)
      (entry : LogEntry) (plain : entry.isConfig = false)
      (added : after.node.backlog = process.node.backlog ++ [entry])
  | change (entry : LogEntry) (created : process.created? input = some entry)
      (taken : process.taken? input = none) (config : entry.isConfig = true)
      (added : after.node.backlog = process.node.backlog ++ [entry])
  | takes (entry : LogEntry) (created : process.created? input = none)
      (taken : process.taken? input = some entry)
      (front : process.node.backlog = entry :: after.node.backlog)

theorem Queued.of_rests (created : process.created? input = none)
    (taken : process.taken? input = none) (same : process.node.Rests after.node) :
    Queued process input after :=
  .rests created taken (RaftNode.backlog_frame same.log same.lastApplied)

theorem queued_addPeer {rpcAddr : String}
    (inside : process.node.lastApplied ≤ process.node.log.lastIndex) :
    Queued process (.addPeer rpcAddr) (process.withNode (process.node.addPeer now rpcAddr).1) := by
  rcases process.node.addPeer_cases now rpcAddr with ⟨none, same, _⟩ | ⟨some, _, _, _, added, _⟩
  · rw [same]
    exact .rests none rfl rfl
  · refine .change _ some rfl rfl (RaftNode.backlog_append inside ?_ ?_)
    · rw [added]
      rfl
    · rw [added]
      rfl

theorem queued_removePeer {rpcAddr : String}
    (inside : process.node.lastApplied ≤ process.node.log.lastIndex) :
    Queued process (.removePeer rpcAddr)
      (process.withNode (process.node.removePeer now rpcAddr).1) := by
  rcases process.node.removePeer_cases now rpcAddr with ⟨none, same, _⟩ | ⟨some, _, removed, _⟩
  · rw [same]
    exact .rests none rfl rfl
  · refine .change _ some rfl rfl (RaftNode.backlog_append inside ?_ ?_)
    · rw [removed]
      rfl
    · rw [removed]
      rfl

theorem queued_call {op : Op} (inside : process.node.lastApplied ≤ process.node.log.lastIndex) :
    Queued process (.call op) (process.startCall codec op) := by
  rcases process.startCall_cases codec op with ⟨_, refused⟩ | ⟨_, accepted⟩
  · rw [refused]
    exact .rests rfl rfl rfl
  · rw [accepted]
    exact .command rfl rfl (process.nextEntry (codec.encodeOp op)) rfl
      (RaftNode.backlog_append inside rfl rfl)

theorem queued_applyLoop (inOrder : InOrder process.node) {branch : Branch}
    (moved : ApplyTransition codec now process after) :
    Queued process (.applyLoop branch) after := by
  have idle (elsewhere : process.loop ≠ .relock) (log : after.node.log = process.node.log)
      (lastApplied : after.node.lastApplied = process.node.lastApplied) :
      Queued process (.applyLoop branch) after :=
    .rests rfl (taken?_elsewhere elsewhere) (RaftNode.backlog_frame log lastApplied)
  have takes (locked : process.loop = .relock)
      (behind : process.node.lastApplied < process.node.commitIndex)
      (log : after.node.log = process.node.log)
      (lastApplied : after.node.lastApplied = process.node.lastApplied + 1) :
      Queued process (.applyLoop branch) after :=
    .takes _ rfl (taken?_behind branch locked behind)
      (RaftNode.backlog_take inOrder.boundary (behind.trans_le inOrder.committed) log lastApplied)
  cases moved with
  | receiveSnapshot snap idling ready => exact idle (by simp [idling]) rfl rfl
  | receiveCommit idling ready => exact idle (by simp [idling]) rfl rfl
  | restore snap holding => exact idle (by simp [holding]) rfl rfl
  | apply entry holding => exact idle (by simp [holding]) rfl rfl
  | deliver msg blocked room => exact idle (by simp [blocked]) rfl rfl
  | drained locked done => exact .rests rfl (by simp [taken?, Nat.not_lt.mpr done]) rfl
  | take locked behind command => exact takes locked behind rfl rfl
  | configure locked behind config =>
    obtain ⟨state, leaderID, nextIndex, matchIndex, lastHeardFrom, _, applied⟩ :=
      RaftNode.applyConfigEntry_eq { process.node with lastApplied := process.node.lastApplied + 1 }
        now (process.node.log.get (process.node.lastApplied + 1))
    rw [applied] at takes ⊢
    exact takes locked behind rfl rfl

theorem queued_readApplyCh {saved : Bool} (moved : ReadTransition codec process saved after) :
    Queued process (.readApplyCh saved) after := by
  refine .rests rfl rfl ?_
  cases moved with
  | take data holding =>
    rcases process.node.takeSnapshot_cases data saved with same | ⟨ahead, term, taken⟩
    · rw [same]
    · rw [taken]
      exact RaftNode.backlog_compactTo ahead rfl rfl
  | routeEntry index term command result reader holding next =>
    obtain ⟨pending, calls, routed⟩ := routeEntry_eq
      { process with applied := process.applied + 1 } index term result
    rw [routed]
  | _ => rfl

theorem queued_appendEntries {args : AppendEntriesArgs}
    (stale : args.term < process.node.currentTerm) : Queued process (.appendEntries args)
      (process.withNode (process.node.handleAppendEntries now args).1) := by
  rcases process.node.handleAppendEntries_cases now args with ⟨_, same, _⟩ | ⟨reached, _⟩
  · rw [same]
    exact .rests rfl rfl rfl
  · rcases process.node.observeLeader_cases args.term with same | ⟨current, _, _⟩
    · rw [same, RaftNode.currentTerm_stepDown] at reached
      omega
    · omega

theorem queued_installSnapshot {args : InstallSnapshotArgs} {saved : Bool}
    (stale : args.term < process.node.currentTerm) : Queued process (.installSnapshot args saved)
      (process.withNode (process.node.handleInstallSnapshot args saved).1) := by
  rcases process.node.handleInstallSnapshot_outcome args saved with
    ⟨relieved, _⟩ | ⟨_, reached, _⟩
  · exact .of_rests rfl rfl relieved.rests
  · rw [RaftNode.currentTerm_stepDown] at reached
    omega

theorem queued_step (inOrder : InOrder process.node) (leading : Leading process input)
    (remains : after.node.state = .leader) (stepped : process.step codec now input = some after) :
    Queued process input after := by
  have inside := inOrder.applied.trans inOrder.committed
  cases input with
  | appendEntries args =>
    have stale := stale_appendEntries leading remains stepped
    cases stepped
    exact queued_appendEntries stale
  | installSnapshot args saved =>
    have stale := stale_installSnapshot leading remains stepped
    cases stepped
    exact queued_installSnapshot stale
  | applyLoop branch => exact queued_applyLoop inOrder (applyLoop_cases stepped)
  | readApplyCh saved => exact queued_readApplyCh (readApplyCh_cases stepped)
  | call op =>
    cases stepped
    exact queued_call inside
  | addPeer rpcAddr =>
    cases stepped
    exact queued_addPeer inside
  | removePeer rpcAddr =>
    cases stepped
    exact queued_removePeer inside
  | _ =>
    have log := (changes_step (by simp) stepped).log_eq (by simp [Input.parts])
    have same := undisturbed_step rfl stepped
    exact .rests rfl rfl (RaftNode.backlog_frame log same.node.lastApplied)

/-- The changes wait in the order of the calls: an accepted call adds its entry at the end,
and the apply loop takes the first one. -/
theorem Queued.waiting (queued : Queued process input after) :
    process.node.waiting ++ (process.created? input).toList =
      ((process.taken? input).filter (·.isConfig)).toList ++ after.node.waiting := by
  unfold RaftNode.waiting
  cases queued with
  | rests created taken same => simp [created, taken, same]
  | command created taken entry plain added => simp [created, taken, added, plain]
  | change entry created taken config added => simp [created, taken, added, config]
  | takes entry created taken front =>
    rw [created, taken, front]
    cases kind : entry.isConfig <;> simp [kind, Option.filter]

/-- The peers in prospect change by the entries of accepted calls, and by nothing else. -/
theorem mem_eventual_step (inOrder : InOrder process.node) (leading : Leading process input)
    (remains : after.node.state = .leader) (stepped : process.step codec now input = some after)
    (addr : String) : addr ∈ after.node.eventual ↔
      ((process.created? input).bind (·.effect? process.node.config.selfAddr addr)).getD
        (decide (addr ∈ process.node.eventual)) = true := by
  obtain ⟨config, peers⟩ := reconfigured_step stepped
  have queue := (queued_step inOrder leading remains stepped).waiting
  unfold RaftNode.eventual
  rw [config, peers]
  cases made : process.created? input with
  | none =>
    have changes : process.change? input = (process.taken? input).filter (·.isConfig) :=
      change?_of_taken (by simp [made])
    rw [made, Option.toList_none, List.append_nil] at queue
    rw [changes, queue, reconfigureAll_append]
    simp
  | some entry =>
    obtain ⟨silent, shown⟩ := change?_of_created made
    rw [made, silent, Option.filter_none, Option.toList_none, List.nil_append,
      Option.toList_some] at queue
    rw [← queue, mem_reconfigureAll, lastEffect_snoc, Option.bind_some]
    cases named : entry.effect? process.node.config.selfAddr addr with
    | some verdict => simp
    | none =>
      rcases shown with ⟨shown, _⟩ | ⟨hidden, _⟩
      · have others :
            addr ∈ reconfigureAll process.node.config.selfAddr process.node.peers [entry] ↔
              addr ∈ process.node.peers := by
          simp [mem_reconfigureAll, lastEffect, named]
        simp [shown, others, mem_reconfigureAll process.node.config.selfAddr addr]
      · simp [hidden, mem_reconfigureAll]

end Process

/-- What a call asks of an address. -/
def Input.wish? (addr : String) : Input → Option Bool
  | .addPeer rpcAddr => if rpcAddr = addr then some true else none
  | .removePeer rpcAddr => if rpcAddr = addr then some false else none
  | _ => none

/-- The call executed on a set of peers. -/
def Input.execute (peers : Finset String) : Input → Finset String
  | .addPeer rpcAddr => insert rpcAddr peers
  | .removePeer rpcAddr => peers.erase rpcAddr
  | _ => peers

/-- The calls of a run executed one after the other. -/
def requested (peers : Finset String) (moves : List (Move Process (Nat × Input))) :
    Finset String :=
  moves.foldl (fun peers move => move.event.2.execute peers) peers

/-- The calls for an address. -/
def callsFor (addr : String) (moves : List (Move Process (Nat × Input))) :
    List (Move Process (Nat × Input)) :=
  moves.filter fun move => (move.event.2.wish? addr).isSome

/-- A call is answered without an entry, and the last change for its address that waits in
the log makes the opposite of it. -/
def Process.Overlooks (process : Process) : Input → Prop
  | .addPeer rpcAddr => process.node.addEntry? rpcAddr = none ∧
      lastEffect process.node.config.selfAddr rpcAddr process.node.waiting = some false
  | .removePeer rpcAddr => process.node.removeEntry? rpcAddr = none ∧
      lastEffect process.node.config.selfAddr rpcAddr process.node.waiting = some true
  | _ => False

instance decidableOverlooks (process : Process) (input : Input) :
    Decidable (process.Overlooks input) := by
  induction input using Input.casesOn with
  | addPeer rpcAddr => exact inferInstanceAs (Decidable (_ ∧ _))
  | removePeer rpcAddr => exact inferInstanceAs (Decidable (_ ∧ _))
  | _ => exact isFalse nofun

section Calls

variable {process : Process} {input : Input} {addr : String}

theorem Input.mem_execute (input : Input) (addr : String) (peers : Finset String) :
    addr ∈ input.execute peers ↔ (input.wish? addr).getD (decide (addr ∈ peers)) = true := by
  cases input with
  | addPeer rpcAddr =>
    by_cases named : rpcAddr = addr
    · simp [execute, wish?, named]
    · simp [execute, wish?, named, Ne.symm named]
  | removePeer rpcAddr =>
    by_cases named : rpcAddr = addr
    · simp [execute, wish?, named]
    · simp [execute, wish?, named, Ne.symm named]
  | _ => simp [execute, wish?]

/-- The entry of a call makes of an address what the call asks for. -/
theorem effect?_of_created {entry : LogEntry} (leading : Leading process input)
    (made : process.created? input = some entry) (addr : String) :
    entry.effect? process.node.config.selfAddr addr = input.wish? addr := by
  cases input with
  | addPeer rpcAddr =>
    have other : rpcAddr ≠ process.node.config.selfAddr := leading.2
    simp only [Process.created?, RaftNode.addEntry?] at made
    split at made
    · cases made
      simp only [LogEntry.effect?, RaftNode.configEntry, Input.wish?]
      by_cases named : rpcAddr = addr
      · simp [named, named ▸ other]
      · simp [named]
    · cases made
  | removePeer rpcAddr =>
    have other : rpcAddr ≠ process.node.config.selfAddr := leading.2
    simp only [Process.created?, RaftNode.removeEntry?] at made
    split at made
    · cases made
      simp [LogEntry.effect?, RaftNode.configEntry, Input.wish?, other]
    · cases made
  | _ => cases made

/-- A leader appends nothing only if its peer list shows what the call asks for. -/
theorem listed_of_answered {wish : Bool} (leading : Leading process input)
    (wishes : input.wish? addr = some wish) (answered : process.created? input = none) :
    decide (addr ∈ process.node.peers) = wish := by
  cases input with
  | addPeer rpcAddr =>
    have other : rpcAddr ≠ process.node.config.selfAddr := leading.2
    simp only [Input.wish?] at wishes
    split at wishes
    · rename_i named
      subst named
      cases wishes
      simpa [Process.created?, RaftNode.addEntry?, leading.1, other] using answered
    · cases wishes
  | removePeer rpcAddr =>
    have other : rpcAddr ≠ process.node.config.selfAddr := leading.2
    simp only [Input.wish?] at wishes
    split at wishes
    · rename_i named
      subst named
      cases wishes
      simpa [Process.created?, RaftNode.removeEntry?, leading.1, other] using answered
    · cases wishes
  | _ => cases wishes

theorem overlooks_iff {wish : Bool} (wishes : input.wish? addr = some wish) :
    process.Overlooks input ↔ process.created? input = none ∧
      lastEffect process.node.config.selfAddr addr process.node.waiting = some (!wish) := by
  cases input with
  | addPeer rpcAddr =>
    simp only [Input.wish?] at wishes
    split at wishes
    · rename_i named
      subst named
      cases wishes
      rfl
    · cases wishes
  | removePeer rpcAddr =>
    simp only [Input.wish?] at wishes
    split at wishes
    · rename_i named
      subst named
      cases wishes
      rfl
    · cases wishes
  | _ => cases wishes

end Calls

/-- The peers in prospect against the calls so far. -/
structure Answered (start : Process) (moves : List (Move Process (Nat × Input)))
    (process : Process) : Prop where
  inOrder : InOrder process.node
  verdict : ∀ addr,
    (addr ∈ process.node.eventual ↔ addr ∈ requested start.node.peers.toFinset moves) ↔
      ∀ call ∈ (callsFor addr moves).getLast?, ¬call.before.Overlooks call.event.2

theorem Answered.step {codec : Codec} {start process after : Process} {now : Nat} {input : Input}
    {moves : List (Move Process (Nat × Input))} (answered : Answered start moves process)
    (leading : Leading process input) (remains : after.node.state = .leader)
    (stepped : process.step codec now input = some after) :
    Answered start (moves ++ [⟨process, (now, input), after⟩]) after := by
  refine ⟨answered.inOrder.step (Process.harmless_of_leading leading remains stepped) stepped, ?_⟩
  intro addr
  have calls : requested start.node.peers.toFinset (moves ++ [⟨process, (now, input), after⟩]) =
      input.execute (requested start.node.peers.toFinset moves) := by
    simp [requested]
  rw [Process.mem_eventual_step answered.inOrder leading remains stepped, calls, Input.mem_execute]
  cases wishes : input.wish? addr with
  | none =>
    -- the call, if it is one, is for another address
    have silent : (process.created? input).bind
        (·.effect? process.node.config.selfAddr addr) = none := by
      cases made : process.created? input with
      | none => rfl
      | some entry => rw [Option.bind_some, effect?_of_created leading made, wishes]
    have same : callsFor addr (moves ++ [⟨process, (now, input), after⟩]) =
        callsFor addr moves := by
      simp [callsFor, wishes]
    rw [silent, same]
    simpa using answered.verdict addr
  | some wish =>
    have last : (callsFor addr (moves ++ [⟨process, (now, input), after⟩])).getLast? =
        some ⟨process, (now, input), after⟩ := by
      simp [callsFor, wishes]
    rw [last]
    simp only [Option.mem_some_iff, forall_eq', Option.getD_some, overlooks_iff wishes]
    cases made : process.created? input with
    | some entry => simp [effect?_of_created leading made, wishes]
    | none =>
      have listed := listed_of_answered leading wishes made
      have prospect : addr ∈ process.node.eventual ↔
          (lastEffect process.node.config.selfAddr addr process.node.waiting).getD wish = true := by
        rw [RaftNode.eventual, mem_reconfigureAll, listed]
      rw [Option.bind_none, Option.getD_none, decide_eq_true_eq, prospect]
      cases lastEffect process.node.config.selfAddr addr process.node.waiting with
      | none => simp
      | some verdict => cases verdict <;> cases wish <;> decide

/-- A process leads in one term, and the changes waiting in its log at the beginning show in
its peer list. Once all changes are applied, its peers are the initial ones with the calls
executed one after the other, exactly if the last call for no address was answered over a
waiting change that undoes it. -/
theorem requests_kept_iff {codec : Codec} {start process : Process}
    {moves : List (Move Process (Nat × Input))} (inOrder : InOrder start.node)
    (shown : ∀ addr, addr ∈ start.node.eventual ↔ addr ∈ start.node.peers)
    (trace : (Process.system codec).Trace (fun process event => Leading process event.2) start
      moves process)
    (leads : process.node.state = .leader) (applied : process.node.waiting = []) :
    process.node.peers.toFinset = requested start.node.peers.toFinset moves ↔
      ∀ addr, ∀ call ∈ (callsFor addr moves).getLast?, ¬call.before.Overlooks call.event.2 := by
  have answered : process.node.state = .leader → Answered start moves process := by
    refine trace.record (fun moves process => process.node.state = .leader →
      Answered start moves process) ?_ ?_
    · refine fun _ => ⟨inOrder, fun addr => ?_⟩
      simp [requested, callsFor, shown]
    · intro moves process event after before leading stepped remains
      exact (before leading.1).step leading remains stepped
  have settled : process.node.eventual = process.node.peers := by
    rw [RaftNode.eventual, applied, reconfigureAll_nil]
  have verdict := (answered leads).verdict
  rw [settled] at verdict
  rw [Finset.ext_iff]
  refine forall_congr' fun addr => ?_
  rw [List.mem_toFinset]
  exact verdict addr

/-- `follower` as the leader of term 1. -/
noncomputable def newLeader : Process :=
  (follower 100).withNode ((follower 100).node.becomeCandidate.becomeLeader 0)

theorem inOrder_newLeader : InOrder newLeader.node where
  boundary := by decide +kernel
  applied := by decide +kernel
  committed := by decide +kernel
  elected := by decide +kernel

theorem eventual_newLeader : newLeader.node.eventual = newLeader.node.peers := by
  have none : newLeader.node.waiting = [] := by decide +kernel
  rw [RaftNode.eventual, none, reconfigureAll_nil]

/-- `node2` acknowledges the first entries of the leader. -/
def acknowledged (entries : Nat) : Nat × Input :=
  (0, .appendReply "node2:7001" 1 ⟨1, "node1", 0, 0, List.replicate entries { term := 1 }, 0⟩
    { term := 1, success := true })

/-- One peer is added and another one removed, and both changes are applied. -/
theorem requests_kept_one_each :
    ∃ moves process, (Process.system Codec.sample).Trace
        (fun process event => Leading process event.2) newLeader moves process ∧
      requested newLeader.node.peers.toFinset moves = {"node2:7001", "node4:7001"} ∧
      process.node.peers.toFinset = requested newLeader.node.peers.toFinset moves := by
  obtain ⟨moves, process, trace, checked⟩ := (Process.system Codec.sample).exists_trace
    (fun process event => Leading process event.2) newLeader [
      (0, .addPeer "node4:7001"),
      (0, .removePeer "node3:7001"),
      acknowledged 2,
      (0, .appendReply "node3:7001" 1 ⟨1, "node1", 0, 0, [{ term := 1 }, { term := 1 }], 0⟩
        { term := 1, success := true }),
      (0, .applyLoop .commit),
      (0, .applyLoop .commit),
      (0, .applyLoop .commit)]
    (fun moves process => process.node.state = .leader ∧ process.node.waiting = [] ∧
      requested newLeader.node.peers.toFinset moves = {"node2:7001", "node4:7001"} ∧
      ∀ move ∈ moves, ¬move.before.Overlooks move.event.2) (by decide +kernel)
  obtain ⟨leads, applied, calls, kept⟩ := of_decide_eq_true checked
  refine ⟨moves, process, trace, calls, ?_⟩
  refine (requests_kept_iff inOrder_newLeader (by simp [eventual_newLeader]) trace leads
    applied).mpr ?_
  intro addr call last
  exact kept call (List.mem_of_mem_filter (List.mem_of_getLast? last))

/-- A peer is removed and added again before the removal is applied. Both calls return `nil`,
but only the removal is in the log: the peer is gone. -/
theorem addition_overlooked :
    ∃ moves process, (Process.system Codec.sample).Trace
        (fun process event => Leading process event.2) newLeader moves process ∧
      process.node.state = .leader ∧ process.node.waiting = [] ∧
      moves.map (fun move => move.event.2.wish? "node3:7001") =
        [some false, some true, none, none, none] ∧
      process.node.peers = ["node2:7001"] ∧
      requested newLeader.node.peers.toFinset moves = {"node2:7001", "node3:7001"} := by
  obtain ⟨moves, process, trace, checked⟩ := (Process.system Codec.sample).exists_trace
    (fun process event => Leading process event.2) newLeader [
      (0, .removePeer "node3:7001"),
      (0, .addPeer "node3:7001"),
      acknowledged 1,
      (0, .applyLoop .commit),
      (0, .applyLoop .commit)]
    (fun moves process => process.node.state = .leader ∧ process.node.waiting = [] ∧
      moves.map (fun move => move.event.2.wish? "node3:7001") =
        [some false, some true, none, none, none] ∧
      process.node.peers = ["node2:7001"] ∧
      requested newLeader.node.peers.toFinset moves = {"node2:7001", "node3:7001"})
    (by decide +kernel)
  exact ⟨moves, process, trace, of_decide_eq_true checked⟩

end KvStore

end RaftGo
