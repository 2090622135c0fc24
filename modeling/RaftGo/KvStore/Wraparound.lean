import RaftGo.KvStore.Progress
import RaftGo.KvStore.Runs

/-! Terms as 64-bit words. Every other critical section copies the terms it is sent;
`becomeCandidate` alone computes one, with `currentTerm++`. -/

namespace RaftGo

namespace Raft

/-- The term in the state file. -/
def Disk.term (disk : Disk) : Nat := (disk.state.map (·.currentTerm)).getD 0

namespace RaftNode

variable {node middle after : RaftNode}

def becomeCandidate64 (node : RaftNode) : RaftNode :=
  { node with
    state := .candidate
    currentTerm := (node.currentTerm + 1) % 2 ^ 64
    votedFor := node.id
    leaderID := "" }.persist

theorem becomeCandidate64_eq (fits : node.currentTerm + 1 < 2 ^ 64) :
    node.becomeCandidate64 = node.becomeCandidate := by
  rw [becomeCandidate64, Nat.mod_eq_of_lt fits, becomeCandidate]

/-- At the largest term the node falls back, to term 0 if its term is a word. -/
theorem currentTerm_becomeCandidate64_lt (wraps : 2 ^ 64 ≤ node.currentTerm + 1) :
    node.becomeCandidate64.currentTerm < node.currentTerm := by
  have shorter : (node.currentTerm + 1) % 2 ^ 64 ≤ node.currentTerm + 1 - 2 ^ 64 := by
    rw [Nat.mod_eq_sub_mod wraps]
    exact Nat.mod_le _ _
  have moved : node.becomeCandidate64.currentTerm = (node.currentTerm + 1) % 2 ^ 64 := rfl
  omega

/-- The state file holds the current term. -/
def Level (node : RaftNode) : Prop := node.disk.term = node.currentTerm

/-- The term does not fall, and neither does the persisted one with any write in between. -/
structure Climbs (node after : RaftNode) : Prop where
  currentTerm_le : node.currentTerm ≤ after.currentTerm
  level : node.Level → after.Level
  writes : node.Level → ∃ contents, after.journal = node.journal ++ contents ∧
    (contents.map Disk.term).Pairwise (· ≤ ·) ∧
    ∀ content ∈ contents, node.currentTerm ≤ content.term ∧ content.term ≤ after.currentTerm

namespace Climbs

theorem trans (first : Climbs node middle) (second : Climbs middle after) : Climbs node after where
  currentTerm_le := first.currentTerm_le.trans second.currentTerm_le
  level := second.level ∘ first.level
  writes level := by
    obtain ⟨early, journal, ordered, within⟩ := first.writes level
    obtain ⟨late, journal', ordered', within'⟩ := second.writes (first.level level)
    refine ⟨early ++ late, by rw [journal', journal, List.append_assoc], ?_, ?_⟩
    · rw [List.map_append, List.pairwise_append]
      refine ⟨ordered, ordered', ?_⟩
      simp only [List.forall_mem_map]
      intro content member content' member'
      exact (within content member).2.trans (within' content' member').1
    · intro content member
      rcases List.mem_append.mp member with old | new
      · exact ⟨(within content old).1, (within content old).2.trans second.currentTerm_le⟩
      · exact ⟨first.currentTerm_le.trans (within' content new).1, (within' content new).2⟩

theorem of_persists (persists : node.Persists after)
    (climbs : node.currentTerm ≤ after.currentTerm) : Climbs node after := by
  refine ⟨climbs, ?_, fun _ => ?_⟩
  · intro level
    cases persists with
    | rests memory disk journal =>
      have same : after.currentTerm = node.currentTerm := congrArg PersistedState.currentTerm memory
      rw [Level, disk, same]
      exact level
    | saves marker disk journal => simp [Level, Disk.term, disk, memory]
  · cases persists with
    | rests memory disk journal => exact ⟨[], by simp [journal], by simp, by simp⟩
    | saves marker disk journal =>
      have written : after.disk.term = after.currentTerm := by simp [Disk.term, disk, memory]
      exact ⟨[after.disk], journal, by simp, by simp [written, climbs]⟩

theorem of_compacts {file : SnapshotFile} (compacts : node.Compacts after file) :
    Climbs node after := by
  have written : after.disk.term = after.currentTerm := by
    rw [Disk.term, compacts.disk]
    rfl
  refine ⟨compacts.currentTerm.ge, fun _ => written, fun level => ?_⟩
  have saved : Disk.term { node.disk with snapshot := some file } = node.currentTerm := level
  refine ⟨_, compacts.journal, ?_, ?_⟩
  · simp [saved, written, compacts.currentTerm]
  · simp [saved, written, compacts.currentTerm]

end Climbs

theorem currentTerm_handleRequestVote (node : RaftNode) (now : Nat) (args : RequestVoteArgs) :
    (node.handleRequestVote now args).1.currentTerm =
      (if args.isPreVote then node else node.stepDown args.term).currentTerm := by
  unfold handleRequestVote
  split
  · unfold handlePreVote
    split <;> rfl
  · unfold handleRealVote
    dsimp only
    split
    · rfl
    · split <;> rfl

end RaftNode

end Raft

namespace KvStore

open Raft Library

namespace Process

variable {codec : Codec} {now : Nat} {process after : Process} {input : Input}

def step64 (codec : Codec) (now : Nat) (process : Process) : Input → Option Process
  | .becomeCandidate =>
    if process.node.eligible then some { process with
      node := process.node.becomeCandidate64
      elections := process.elections + 1 }
    else process
  | input => process.step codec now input

def system64 (codec : Codec) : System Process (Nat × Input) where
  step process event := process.step64 codec event.1 event.2

/-- The input makes the node stand for election at the largest term. -/
def Wraps (process : Process) (input : Input) : Prop :=
  input = .becomeCandidate ∧ process.node.eligible = true ∧ 2 ^ 64 ≤ process.node.currentTerm + 1

instance decidableWraps (process : Process) (input : Input) : Decidable (process.Wraps input) :=
  inferInstanceAs (Decidable (_ ∧ _))

/-- Otherwise the size of words makes no difference. -/
theorem step64_eq (fits : ¬process.Wraps input) :
    process.step64 codec now input = process.step codec now input := by
  cases input with
  | becomeCandidate =>
    simp only [step64, step]
    by_cases eligible : process.node.eligible = true
    · have small : process.node.currentTerm + 1 < 2 ^ 64 :=
        Nat.lt_of_not_le fun large => fits ⟨rfl, eligible, large⟩
      rw [if_pos eligible, if_pos eligible, RaftNode.becomeCandidate64_eq small]
    · rw [if_neg eligible, if_neg eligible]
  | _ => rfl

theorem currentTerm_lt_of_wraps (wraps : process.Wraps input)
    (stepped : process.step64 codec now input = some after) :
    after.node.currentTerm < process.node.currentTerm := by
  obtain ⟨rfl, eligible, large⟩ := wraps
  simp only [step64, if_pos eligible, Option.some.injEq] at stepped
  rw [← stepped]
  exact RaftNode.currentTerm_becomeCandidate64_lt large

theorem currentTerm_le_midpoint (process : Process) (input : Input) :
    process.node.currentTerm ≤ (process.midpoint input).currentTerm := by
  obtain ⟨term, same⟩ := process.midpoint_memory input
  have terms := congrArg PersistedState.currentTerm same
  have raised := process.node.currentTerm_stepDown term
  have memory : (process.midpoint input).currentTerm = (process.node.stepDown term).currentTerm :=
    terms
  omega

theorem midpoint_le_currentTerm (stepped : process.step codec now input = some after) :
    (process.midpoint input).currentTerm ≤ after.node.currentTerm := by
  cases input with
  | requestVote args =>
    cases stepped
    exact (process.node.currentTerm_handleRequestVote now args).ge
  | appendEntries args =>
    cases stepped
    exact (process.node.currentTerm_handleAppendEntries now args).ge
  | installSnapshot args saved =>
    cases stepped
    refine Nat.le_of_eq ?_
    exact (process.node.currentTerm_stepDown args.term).trans
      (process.node.currentTerm_handleInstallSnapshot args saved).symm
  | _ => exact (standing_step stepped).currentTerm_le

/-- Every write of an input, and its end, lie between the terms before and after. -/
theorem climbs_step (stepped : process.step codec now input = some after) :
    process.node.Climbs after.node := by
  have first : process.node.Climbs (process.midpoint input) :=
    .of_persists (process.persists_midpoint input) (process.currentTerm_le_midpoint input)
  refine first.trans ?_
  rcases staged_step stepped with persists | ⟨_, file, compacts⟩
  · exact .of_persists persists (midpoint_le_currentTerm stepped)
  · exact .of_compacts compacts

end Process

/-- The terms in the state file since the process was started over the disk. -/
def persistedTerms (disk : Disk) (process : Process) : List Nat :=
  (disk :: process.node.journal).map Disk.term

/-- The persisted terms are in order, and none exceeds the one in memory. -/
structure Climbing (disk : Disk) (process : Process) : Prop where
  level : process.node.Level
  ordered : (persistedTerms disk process).Pairwise (· ≤ ·)
  bounded : ∀ term ∈ persistedTerms disk process, term ≤ process.node.currentTerm

theorem Climbing.start (codec : Codec) (cfg : Config) (threshold boots : Nat) (disk : Disk) :
    Climbing disk (Process.start codec cfg threshold boots disk) := by
  obtain ⟨term, data, booted⟩ := boot_eq cfg disk
  have node : (Process.start codec cfg threshold boots disk).node = boot cfg disk := rfl
  have journal : persistedTerms disk (Process.start codec cfg threshold boots disk) =
      [disk.term] := by
    rw [persistedTerms, node, booted]
    rfl
  have current : (Process.start codec cfg threshold boots disk).node.currentTerm = disk.term := by
    rw [node, booted]
    rfl
  refine ⟨?_, ?_, ?_⟩
  · rw [RaftNode.Level, current, node, booted]
  · rw [journal]
    exact List.pairwise_singleton _ _
  · rw [journal, current]
    simp

theorem Climbing.step {codec : Codec} {now : Nat} {input : Input} {disk : Disk}
    {process after : Process} (climbing : Climbing disk process)
    (stepped : process.step codec now input = some after) : Climbing disk after := by
  have climbs := Process.climbs_step stepped
  obtain ⟨contents, journal, ordered, within⟩ := climbs.writes climbing.level
  have terms : persistedTerms disk after =
      persistedTerms disk process ++ contents.map Disk.term := by
    simp [persistedTerms, journal]
  refine ⟨climbs.level climbing.level, ?_, ?_⟩
  · rw [terms, List.pairwise_append]
    refine ⟨climbing.ordered, ordered, fun term old => ?_⟩
    rw [List.forall_mem_map]
    exact fun content new => (climbing.bounded term old).trans (within content new).1
  · rw [terms]
    intro term member
    rcases List.mem_append.mp member with old | new
    · exact (climbing.bounded term old).trans climbs.currentTerm_le
    · obtain ⟨content, written, rfl⟩ := List.mem_map.mp new
      exact (within content written).2

/-- Neither the term in memory nor the persisted one ever falls exactly in those runs in which
the node does not stand for election at the largest term. -/
theorem terms_never_fall {codec : Codec} {cfg : Config} {threshold boots : Nat} {disk : Disk}
    {moves : List (Move Process (Nat × Input))} {process : Process}
    (trace : (Process.system64 codec).Trace (fun _ _ => True)
      (Process.start codec cfg threshold boots disk) moves process) :
    ((∀ move ∈ moves, move.before.node.currentTerm ≤ move.after.node.currentTerm) ∧
        (persistedTerms disk process).Pairwise (· ≤ ·)) ↔
      ∀ move ∈ moves, ¬move.before.Wraps move.event.2 := by
  constructor
  · rintro ⟨rises, _⟩ move member wraps
    obtain ⟨_, _, _, taken⟩ := trace.of_move member
    exact absurd (rises move member) (Nat.not_le.mpr (Process.currentTerm_lt_of_wraps wraps taken))
  · intro fits
    constructor
    · intro move member
      obtain ⟨_, _, _, taken⟩ := trace.of_move member
      have stepped := (Process.step64_eq (fits move member)).symm.trans taken
      exact (Process.climbs_step stepped).currentTerm_le
    · have climbing : Climbing disk process := by
        refine trace.record
          (fun moves process => (∀ move ∈ moves, ¬move.before.Wraps move.event.2) →
            Climbing disk process)
          (fun _ => .start codec cfg threshold boots disk) ?_ fits
        intro moves process event next before _ taken fits
        have earlier := before fun move member => fits move (List.mem_append_left _ member)
        have last := fits ⟨process, event, next⟩ (by simp)
        exact earlier.step ((Process.step64_eq last).symm.trans taken)
      exact climbing.ordered

/-- A vote request takes the follower to the term it is given, and it stands for election. -/
def standsAfter (term : Nat) : List (Nat × Input) := [
  (0, .requestVote ⟨term, "node2", 0, 0, false⟩),
  (1, .becomeCandidate)]

theorem terms_never_fall_below_the_top :
    ∃ moves process, (Process.system64 Codec.sample).Trace (fun _ _ => True) (follower 100) moves
        process ∧
      (process.node.currentTerm = 2 ^ 64 - 1 ∧
        ∀ move ∈ moves, ¬move.before.Wraps move.event.2) ∧
      (∀ move ∈ moves, move.before.node.currentTerm ≤ move.after.node.currentTerm) ∧
      (persistedTerms {} process).Pairwise (· ≤ ·) := by
  obtain ⟨moves, process, trace, checked⟩ :=
    (Process.system64 Codec.sample).exists_trace (fun _ _ => True) (follower 100)
      (standsAfter (2 ^ 64 - 2)) (fun moves process => process.node.currentTerm = 2 ^ 64 - 1 ∧
        ∀ move ∈ moves, ¬move.before.Wraps move.event.2) (by decide +kernel)
  have passed := of_decide_eq_true checked
  exact ⟨moves, process, trace, passed, (terms_never_fall trace).mpr passed.2⟩

/-- From the largest term the node falls to term 0, in memory and on disk. -/
theorem term_wraps_to_zero :
    ∃ moves process, (Process.system64 Codec.sample).Trace (fun _ _ => True) (follower 100) moves
        process ∧
      (moves.map fun move => (move.before.node.currentTerm, move.after.node.currentTerm)) =
        [(0, 2 ^ 64 - 1), (2 ^ 64 - 1, 0)] ∧
      persistedTerms {} process = [0, 2 ^ 64 - 1, 2 ^ 64 - 1, 0] := by
  obtain ⟨moves, process, trace, checked⟩ :=
    (Process.system64 Codec.sample).exists_trace (fun _ _ => True) (follower 100)
      (standsAfter (2 ^ 64 - 1)) (fun moves process =>
        (moves.map fun move => (move.before.node.currentTerm, move.after.node.currentTerm)) =
          [(0, 2 ^ 64 - 1), (2 ^ 64 - 1, 0)] ∧
        persistedTerms {} process = [0, 2 ^ 64 - 1, 2 ^ 64 - 1, 0]) (by decide +kernel)
  exact ⟨moves, process, trace, of_decide_eq_true checked⟩

end KvStore

end RaftGo
