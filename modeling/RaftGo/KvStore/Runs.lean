import RaftGo.KvStore.Transitions
import RaftGo.Library.System
import RaftGo.Raft.Applied

/-! Runs of one process by itself, under whatever requests, replies and calls
reach it. The state machine is touched by its apply loop alone. -/

namespace RaftGo.KvStore

open Raft Library

/-- An event is an input and the time at which it happens. -/
def Process.system (codec : Codec) : System Process (Nat × Input) where
  step process event := process.step codec event.1 event.2

/-- Everything but the apply loop, `readApplyCh` and a snapshot from the leader. -/
def Input.background : Input → Bool
  | .installSnapshot _ _ => false
  | .applyLoop _ => false
  | .readApplyCh _ => false
  | _ => true

namespace Process

variable {codec : Codec} {now : Nat} {process after : Process}

/-- The entry an input makes the apply loop take from the log. -/
def taken? (process : Process) : Input → Option LogEntry
  | .applyLoop _ =>
    if process.loop = .relock ∧ process.node.lastApplied < process.node.commitIndex
    then some (process.node.log.get (process.node.lastApplied + 1))
    else none
  | _ => none

theorem taken?_elsewhere {input : Input} (elsewhere : process.loop ≠ .relock) :
    process.taken? input = none := by
  cases input <;> simp [taken?, elsewhere]

theorem taken?_behind (branch : Branch) (locked : process.loop = .relock)
    (behind : process.node.lastApplied < process.node.commitIndex) :
    process.taken? (.applyLoop branch) =
      some (process.node.log.get (process.node.lastApplied + 1)) := by
  simp [taken?, locked, behind]

theorem eq_get_of_taken? {input : Input} {entry : LogEntry}
    (taken : process.taken? input = some entry) :
    entry = process.node.log.get (process.node.lastApplied + 1) := by
  cases input with
  | applyLoop branch =>
    simp only [taken?] at taken
    split at taken
    · exact (Option.some.inj taken).symm
    · cases taken
  | _ => cases taken

/-- Nothing the apply loop or `readApplyCh` look at has changed. -/
structure Undisturbed (process after : Process) : Prop where
  node : process.node.KeepsApplied after.node
  loop : after.loop = process.loop
  data : after.data = process.data
  reader : after.reader = process.reader

/-- The same, and the peers. -/
structure Unaffected (process after : Process) : Prop where
  node : process.node.Unaffected after.node
  loop : after.loop = process.loop
  data : after.data = process.data
  reader : after.reader = process.reader

theorem elsewhere_of_background {input : Input} (background : input.background = true)
    (branch : Branch) : input ≠ .applyLoop branch := by
  rintro rfl
  cases background

theorem parts_background {input : Input} (background : input.background = true) :
    ∀ part ∈ input.parts, part ∉ [.compaction, .installation] := by
  cases input with
  | installSnapshot | applyLoop | readApplyCh => cases background
  | _ => simp [Input.parts]

/-- What is not part of the node only moves with the other three. -/
theorem aside_step {input : Input} (background : input.background = true)
    (stepped : process.step codec now input = some after) :
    after.loop = process.loop ∧ after.data = process.data ∧ after.reader = process.reader := by
  cases input with
  | installSnapshot | applyLoop | readApplyCh => cases background
  | electionTimeout | becomeCandidate | resetTimer =>
    simp only [step] at stepped
    split at stepped <;> cases stepped <;> exact ⟨rfl, rfl, rfl⟩
  | startPreVote =>
    obtain ⟨_, rfl⟩ := step_startPreVote stepped
    exact ⟨rfl, rfl, rfl⟩
  | startElection =>
    obtain ⟨_, rfl⟩ := step_startElection stepped
    exact ⟨rfl, rfl, rfl⟩
  | call op =>
    cases stepped
    rcases process.startCall_cases codec op with ⟨_, refused⟩ | ⟨_, accepted⟩
    · rw [refused]
      exact ⟨rfl, rfl, rfl⟩
    · rw [accepted]
      exact ⟨rfl, rfl, rfl⟩
  | registerCall caller =>
    obtain ⟨call, _, _, rfl⟩ := registerCall_cases stepped
    exact ⟨rfl, rfl, rfl⟩
  | finishCall caller =>
    obtain ⟨call, result, outcome, _, _, _, _, rfl⟩ := finishCall_cases stepped
    exact ⟨rfl, rfl, rfl⟩
  | timeOutCall caller =>
    obtain ⟨call, _, _, rfl⟩ := timeOutCall_cases stepped
    exact ⟨rfl, rfl, rfl⟩
  | _ =>
    cases stepped
    exact ⟨rfl, rfl, rfl⟩

theorem unaffected_step {input : Input} (background : input.background = true)
    (other : ∀ rpcAddr, input ≠ .addPeer rpcAddr)
    (stepped : process.step codec now input = some after) : process.Unaffected after := by
  have changes := changes_step (elsewhere_of_background background) stepped
  have parts : ∀ part ∈ input.parts, part ∉ [.peers, .compaction, .installation] := by
    cases input with
    | installSnapshot | applyLoop | readApplyCh => cases background
    | addPeer rpcAddr => exact absurd rfl (other rpcAddr)
    | _ => simp [Input.parts]
  obtain ⟨loop, data, reader⟩ := aside_step background stepped
  exact ⟨changes.unaffected parts, loop, data, reader⟩

theorem undisturbed_step {input : Input} (background : input.background = true)
    (stepped : process.step codec now input = some after) : process.Undisturbed after := by
  have changes := changes_step (elsewhere_of_background background) stepped
  obtain ⟨loop, data, reader⟩ := aside_step background stepped
  exact ⟨changes.keepsApplied (parts_background background), loop, data, reader⟩

theorem taken?_background {input : Input} (background : input.background = true) :
    process.taken? input = none := by
  cases input with
  | applyLoop branch => cases background
  | _ => rfl

/-- Taking an entry moves `lastApplied` by one, and it never moves back. -/
theorem lastApplied_step {input : Input} (stepped : process.step codec now input = some after) :
    process.node.lastApplied + (process.taken? input).toList.length ≤ after.node.lastApplied := by
  cases kind : input.background with
  | true =>
    rw [taken?_background kind, (undisturbed_step kind stepped).node.lastApplied]
    exact Nat.le_refl _
  | false =>
    cases input with
    | applyLoop branch =>
      cases applyLoop_cases stepped with
      | configure locked behind config =>
        rw [taken?_behind branch locked behind,
          (RaftNode.keepsApplied_applyConfigEntry _ now _).lastApplied]
        exact Nat.le_refl _
      | take locked behind command =>
        rw [taken?_behind branch locked behind]
        exact Nat.le_refl _
      | drained locked done => simp [taken?, Nat.not_lt.mpr done]
      | receiveSnapshot snap idle ready => simp [taken?_elsewhere, idle]
      | receiveCommit idle ready => simp [taken?_elsewhere, idle]
      | restore snap holding => simp [taken?_elsewhere, holding]
      | apply entry holding => simp [taken?_elsewhere, holding]
      | deliver msg blocked room => simp [taken?_elsewhere, blocked]
    | installSnapshot args saved =>
      cases stepped
      obtain ⟨relieved, before, outcome⟩ := process.node.handleInstallSnapshot_cases args saved
      have same := before.unaffected.lastApplied
      rcases outcome with ignored | ⟨_, installed⟩
      · rw [ignored]
        exact same.ge
      · rw [installed]
        exact same ▸ Nat.le_max_left _ _
    | readApplyCh saved =>
      cases readApplyCh_cases stepped with
      | take data holding => exact (process.node.takeSnapshot_saves data saved).1.ge
      | routeEntry index term command result reader holding next =>
        obtain ⟨pending, calls, routed⟩ := routeEntry_eq
          { process with applied := process.applied + 1 } index term result
        rw [routed]
        exact Nat.le_refl _
      | _ => exact Nat.le_refl _
    | _ => cases kind

end Process

/-- `node1` of three. -/
def followerConfig : Config where
  id := "node1"
  peers := ["node2:7001", "node3:7001"]
  selfAddr := "node1:7001"

/-- The node over an empty data directory. -/
noncomputable def follower (threshold : Nat) : Process :=
  Process.start Codec.sample followerConfig threshold 0 {}

/-- `Set("x", "1")` and `Delete("x")`, as a leader of term 1 appends them. -/
def setThenDelete : List LogEntry := [
  { term := 1, index := 1, command := [] },
  { term := 1, index := 2, command := [0] }]

end RaftGo.KvStore
