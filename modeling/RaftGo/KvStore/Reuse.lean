import RaftGo.KvStore.Delivery

/-! Indices used again. When the entry of a call has been truncated its index may be
handed out once more, and `pending` is keyed by the index alone: a call that registers
late or times out takes the place of the call that has the index now. -/

namespace RaftGo.KvStore

open Raft Library

namespace Process

variable {codec : Codec} {now : Nat} {process after : Process} {input : Input}

theorem entryIndices_made? (codec : Codec) (process : Process) (input : Input) :
    entryIndices (process.made? codec input).toList =
      (process.applied? input).toList.map (·.index) := by
  cases input with
  | applyLoop branch =>
    cases place : process.loop <;>
      simp [made?, applied?, place, entryIndices, ApplyMsg.isSnapshot, ApplyMsg.index]
  | _ => rfl

/-- The indices of the entries between the log and the callers, oldest first. -/
def upcoming (process : Process) : List Nat :=
  entryIndices process.inTransit ++ process.loop.held.map (·.index)

theorem upcoming_step (stepped : process.step codec now input = some after) :
    process.upcoming ++ ((process.taken? input).toList.filter (!·.isConfig)).map (·.index) =
      entryIndices (process.consumed? input).toList ++ after.upcoming := by
  have held := congrArg (List.map (·.index)) (held_step stepped)
  have moved := congrArg entryIndices (inTransit_step stepped)
  rw [List.map_append, List.map_append, ← entryIndices_made? codec] at held
  rw [entryIndices_append, entryIndices_append] at moved
  rw [upcoming, List.append_assoc, held, ← List.append_assoc, moved, List.append_assoc, upcoming]

end Process

/-- Where no entry at or below `commitIndex` is replaced, every index is routed at most
once, installed snapshots or not: the apply loop only goes up. -/
structure Ascending (moves : List (Move Process (Nat × Input))) (process : Process) : Prop where
  inOrder : InOrder process.node
  formed : ∃ changes, process.node.log.Formed changes
  sorted : (entryIndices (routed moves) ++ process.upcoming).Pairwise (· < ·)
  reached : ∀ index ∈ entryIndices (routed moves) ++ process.upcoming,
    0 < index ∧ index ≤ process.node.lastApplied

namespace Ascending

variable {codec : Codec} {process after : Process} {now : Nat} {input : Input}
  {moves : List (Move Process (Nat × Input))}

theorem start {disk : Disk} {memory : PersistedState} (backs : disk.Backs memory)
    (numbered : Numbered memory.entries.snapshotIndex memory.entries.rest) (codec : Codec)
    (cfg : Config) (threshold boots : Nat) :
    Ascending [] (Process.start codec cfg threshold boots disk) where
  inOrder := .start backs cfg threshold boots
  formed := (Orderly.initial backs numbered codec cfg threshold boots).formed
  sorted := .nil
  reached index member := by cases member

theorem step (ascending : Ascending moves process) (harmless : Harmless process input)
    (places : Places process input) (stepped : process.step codec now input = some after) :
    Ascending (moves ++ [⟨process, (now, input), after⟩]) after := by
  have advanced := Process.lastApplied_step stepped
  have flow : entryIndices (routed (moves ++ [⟨process, (now, input), after⟩])) ++
      after.upcoming = (entryIndices (routed moves) ++ process.upcoming) ++
        ((process.taken? input).toList.filter (!·.isConfig)).map (·.index) := by
    rw [routed_snoc, entryIndices_append, List.append_assoc, List.append_assoc,
      Process.upcoming_step stepped]
  -- an entry is taken at the index after `lastApplied`
  have fresh : ∀ index ∈ ((process.taken? input).toList.filter (!·.isConfig)).map (·.index),
      index = process.node.lastApplied + 1 ∧ index ≤ after.node.lastApplied := by
    intro index member
    obtain ⟨entry, kept, rfl⟩ := List.mem_map.mp member
    have taken := Option.mem_toList.mp (List.mem_filter.mp kept).1
    have at' := index_of_taken? ascending.inOrder ascending.formed taken
    rw [Option.mem_def.mp taken] at advanced
    exact ⟨at', at' ▸ advanced⟩
  refine ⟨ascending.inOrder.step harmless stepped,
    formed_step places ascending.inOrder ascending.formed stepped, ?_, ?_⟩
  · rw [flow, List.pairwise_append]
    refine ⟨ascending.sorted, ?_, ?_⟩
    · cases process.taken? input with
      | none => exact .nil
      | some entry => cases config : entry.isConfig <;> simp [config]
    · intro earlier old later new
      have bound := (ascending.reached earlier old).2
      have above := (fresh later new).1
      omega
  · rw [flow]
    intro index member
    rcases List.mem_append.mp member with old | new
    · obtain ⟨positive, bound⟩ := ascending.reached index old
      omega
    · obtain ⟨above, bound⟩ := fresh index new
      omega

/-- A message about to be routed is the first one for its index. -/
theorem first_of_consumed? (ascending : Ascending moves process) {msg : ApplyMsg}
    (consumed : process.consumed? input = some msg) (entry : msg.isSnapshot = false) :
    msg.index ∉ entryIndices (routed moves) ∧ msg.index ≠ 0 := by
  have flying : msg.index ∈ process.upcoming := by
    refine List.mem_append_left _ (mem_entryIndices.mpr ⟨msg, ?_, entry, rfl⟩)
    exact Process.mem_inTransit_of_consumed? consumed
  refine ⟨fun earlier => ?_, ?_⟩
  · have below := (List.pairwise_append.mp ascending.sorted).2.2 msg.index earlier msg.index flying
    exact Nat.lt_irrefl _ below
  · have positive := (ascending.reached msg.index (List.mem_append_right _ flying)).1
    exact Nat.ne_of_gt positive

end Ascending

/-- A call that was registered and had not timed out when the result for its index and
term was routed has this result in its channel or has returned it. -/
def ResultReceived (caller : Nat) (moves : List (Move Process (Nat × Input)))
    (process : Process) : Prop :=
  ∀ move ∈ moves, ∀ index term command result,
    move.before.consumed? move.event.2 = some (.entry index term command result) →
    ∀ call, move.before.calls[caller]? = some call → call.index = index → call.term = term →
      call.state ≠ .submitted → call.state ≠ .returned (.error .timeout) →
      ∃ later, process.calls[caller]? = some later ∧ later.Has result

/-- Whatever other calls have had the index, a call keeps its registration and receives
its result if none of them registers or times out while it is registered. -/
theorem reused_index_delivery {codec : Codec} {cfg : Config} {threshold boots : Nat}
    {disk : Disk} {memory : PersistedState} (backs : disk.Backs memory)
    (numbered : Numbered memory.entries.snapshotIndex memory.entries.rest) {caller : Nat}
    {moves : List (Move Process (Nat × Input))} {process : Process}
    (trace : (Process.system codec).Trace (fun process event => Harmless process event.2 ∧
        Places process event.2 ∧ (event.2 = .timeOutCall caller → Prompt process event.2) ∧
        Spares caller process event.2)
      (Process.start codec cfg threshold boots disk) moves process) :
    ResultReceived caller moves process ∧
    ∀ call, process.calls[caller]? = some call → call.state = .waiting → call.inbox = none →
      process.pending call.index = some ⟨call.term, caller⟩ := by
  have run : (Ascending moves process ∧ Served caller moves process) ∧
      ResultReceived caller moves process := by
    refine trace.record (fun moves process => (Ascending moves process ∧
      Served caller moves process) ∧ ResultReceived caller moves process)
      ⟨⟨.start backs numbered codec cfg threshold boots,
        .start caller codec cfg threshold boots disk⟩, by simp [ResultReceived]⟩ ?_
    rintro moves process ⟨now, input⟩ after ⟨⟨ascending, served⟩, received⟩
      ⟨harmless, places, prompt, spared⟩ stepped
    refine ⟨⟨ascending.step harmless places stepped, served.step spared stepped⟩, ?_⟩
    intro move member index term command result consumed call found at' since registered inTime
    rcases List.mem_append.mp member with old | last
    · obtain ⟨later, lookup, has⟩ := received move old index term command result consumed call
        found at' since registered inTime
      exact has.step served.registry prompt lookup stepped
    · cases List.mem_singleton.mp last
      obtain ⟨first, indexed⟩ := ascending.first_of_consumed? consumed rfl
      exact served.has_of_consumed stepped consumed first indexed found at' since registered inTime
  exact ⟨run.2, run.1.2.waiting⟩

/-- Behind `setSubmitted`: a second call gets index 2, another leader replaces both
entries by one of its own, and after the next election `Delete("x")` gets index 2. -/
def indexReused : List (Nat × Input) := [
  (0, .call setOp),
  (0, .registerCall 1),
  (1000, .appendEntries {
      term := 2
      leaderID := "node2"
      prevLogIndex := 0
      prevLogTerm := 0
      entries := [{ term := 2, index := 1, command := [] }]
      leaderCommit := 0 }),
  (4900, .becomeCandidate),
  (4900, .voteReply 3 1 2 { term := 3, voteGranted := true }),
  (4900, .call deleteOp),
  (4900, .registerCall 2)]

/-- A peer stores both entries of the log, and their results are routed. -/
def reusedRouted (now : Nat) : List (Nat × Input) := [
  (now, .appendReply "node2:7001" 3 {
      term := 3
      leaderID := "node1"
      prevLogIndex := 1
      prevLogTerm := 2
      entries := [{ term := 3, index := 2, command := [0] }]
      leaderCommit := 0 } { term := 3, success := true, conflictTerm := 0, conflictIndex := 0 })] ++
  List.replicate 7 (now, .applyLoop .commit) ++ List.replicate 4 (now, .readApplyCh true)

/-- The second call of the run and the one that has its index later. -/
def reusedCalls (earlier later : CallState) : List ClientCall := [
  { op := setOp, index := 2, term := 1, state := earlier },
  { op := deleteOp, index := 2, term := 3, state := later }]

/-- The later call is answered before the earlier one times out. -/
theorem reused_index_delivery_leader :
    ∃ moves process, (Process.system Codec.sample).Trace (fun process event =>
        Harmless process event.2 ∧ Places process event.2 ∧
        (event.2 = .timeOutCall 2 → Prompt process event.2) ∧ Spares 2 process event.2)
        (follower 100) moves process ∧
      process.calls.drop 1 = reusedCalls (.returned (.error .timeout)) (.returned (.ok "")) ∧
      ResultReceived 2 moves process := by
  obtain ⟨moves, process, trace, checked⟩ := (Process.system Codec.sample).exists_trace
    (fun process event => Harmless process event.2 ∧ Places process event.2 ∧
      (event.2 = .timeOutCall 2 → Prompt process event.2) ∧ Spares 2 process event.2)
    (follower 100)
    (setSubmitted ++ indexReused ++ reusedRouted 4950 ++
      [(5000, .timeOutCall 1), (5000, .finishCall 2)])
    (fun _ process => process.calls.drop 1 =
      reusedCalls (.returned (.error .timeout)) (.returned (.ok ""))) (by decide +kernel)
  refine ⟨moves, process, trace, of_decide_eq_true checked, ?_⟩
  exact (reused_index_delivery Disk.Backs.empty (by decide) trace).1

/-- The earlier call times out while the later one is registered, and takes it out of
`pending`: its entry is applied, and it waits for the five seconds in vain. -/
theorem registration_lost_to_timeout :
    ∃ moves process, (Process.system Codec.sample).Trace (fun process event =>
        Harmless process event.2 ∧ Places process event.2 ∧ Prompt process event.2)
        (follower 100) moves process ∧
      routed moves = [.entry 1 2 [] {}, .entry 2 3 [0] {}] ∧
      process.calls.drop 1 =
        reusedCalls (.returned (.error .timeout)) (.returned (.error .timeout)) ∧
      ¬ ResultReceived 2 moves process := by
  obtain ⟨moves, process, trace, checked⟩ := (Process.system Codec.sample).exists_trace
    (fun process event => Harmless process event.2 ∧ Places process event.2 ∧
      Prompt process event.2) (follower 100)
    (setSubmitted ++ indexReused ++ (5000, .timeOutCall 1) :: reusedRouted 5050 ++
      [(9900, .timeOutCall 2)])
    (fun moves process => (moves.any fun move =>
        move.before.consumed? move.event.2 = some (.entry 2 3 [0] {}) &&
        move.before.calls.drop 1 = reusedCalls (.returned (.error .timeout)) .waiting) &&
      routed moves = [.entry 1 2 [] {}, .entry 2 3 [0] {}] &&
      process.calls.drop 1 =
        reusedCalls (.returned (.error .timeout)) (.returned (.error .timeout)))
    (by decide +kernel)
  simp only [Bool.and_eq_true, List.any_eq_true, decide_eq_true_eq] at checked
  obtain ⟨⟨⟨move, member, consumed, waits⟩, sent⟩, expired⟩ := checked
  refine ⟨moves, process, trace, sent, expired, fun received => ?_⟩
  have standing (calls : List ClientCall) : calls[2]? = (calls.drop 1)[1]? := by simp
  have before := standing move.before.calls
  have final := standing process.calls
  rw [waits] at before
  rw [expired] at final
  obtain ⟨later, lookup, ⟨state, _⟩ | outcome⟩ :=
    received move member 2 3 [0] {} consumed _ before rfl rfl (by simp) (by simp)
  · cases Option.some.inj (final.symm.trans lookup)
    cases state
  · cases Option.some.inj (final.symm.trans lookup)
    cases outcome

end RaftGo.KvStore
