import RaftGo.KvStore.Application
import RaftGo.KvStore.Lives

/-! The wake-up of the apply loop. `commitNotifyC` holds one token: a notification is dropped
if one is pending, and the loop takes it out before it does the work. -/

namespace RaftGo

namespace Raft.RaftNode

variable {node middle after : RaftNode} {now : Nat} {part : Part}

/-- If there are entries to apply afterwards, a token is there, or there were some before and
no token has been taken. -/
def Signals (node after : RaftNode) : Prop :=
  after.lastApplied < after.commitIndex → after.commitNotifyC = true ∨
    node.lastApplied < node.commitIndex ∧ after.commitNotifyC = node.commitNotifyC

namespace Signals

theorem of_same (lastApplied : after.lastApplied = node.lastApplied)
    (commitIndex : after.commitIndex = node.commitIndex)
    (token : after.commitNotifyC = node.commitNotifyC) : node.Signals after := by
  intro behind
  rw [lastApplied, commitIndex] at behind
  exact .inr ⟨behind, token⟩

theorem refl (node : RaftNode) : node.Signals node := .of_same rfl rfl rfl

theorem trans (first : node.Signals middle) (second : middle.Signals after) :
    node.Signals after := by
  intro behind
  rcases second behind with token | ⟨before, kept⟩
  · exact .inl token
  · rcases first before with token | ⟨earlier, same⟩
    · exact .inl (kept.trans token)
    · exact .inr ⟨earlier, kept.trans same⟩

end Signals

/-- `commitIndex` moves with a notification, and an installed snapshot raises both indices to
its own. -/
theorem Change.signals (change : Change now node part after) : node.Signals after := by
  cases change with
  | maybeCommit =>
    unfold RaftNode.maybeCommit
    split
    · exact fun _ => .inl rfl
    · exact .refl node
  | advanceCommit leaderCommit =>
    unfold RaftNode.advanceCommit
    split
    · exact fun _ => .inl rfl
    · exact .refl node
  | install args ahead =>
    intro behind
    have raised : max node.lastApplied args.lastIncludedIndex <
        max node.commitIndex args.lastIncludedIndex := behind
    exact .inr ⟨by omega, rfl⟩
  | _ => exact .of_same rfl rfl rfl

end Raft.RaftNode

namespace KvStore

open Raft Library

/-- The loop is inside the branch that a token starts, and will look at `commitIndex` again
before it waits. -/
def ApplyLoop.draining : ApplyLoop → Bool
  | .relock | .apply _ => true
  | .deliver msg => !msg.isSnapshot
  | .select | .restore _ => false

namespace Process

variable {codec : Codec} {now : Nat} {process after : Process} {input : Input}

/-- Whatever is committed and not applied will be noticed. -/
def Awake (process : Process) : Prop :=
  process.node.lastApplied < process.node.commitIndex →
    process.node.commitNotifyC = true ∨ process.loop.draining = true

theorem Awake.applyLoop (awake : process.Awake) (moved : ApplyTransition codec now process after) :
    after.Awake := by
  intro behind
  -- outside the branch the loop has not touched the token
  have token (outside : process.loop.draining = false)
      (pending : process.node.lastApplied < process.node.commitIndex) :
      process.node.commitNotifyC = true :=
    (awake pending).resolve_right (by simp [outside])
  cases moved with
  | receiveSnapshot snap idle ready => exact .inl (token (by rw [idle]; rfl) behind)
  | receiveCommit idle ready => exact .inr rfl
  | restore snap holding => exact .inl (token (by rw [holding]; rfl) behind)
  | drained locked done => exact absurd behind (Nat.not_lt.mpr done)
  | configure locked behind' config => exact .inr rfl
  | take locked behind' command => exact .inr rfl
  | apply entry holding => exact .inr rfl
  | deliver msg blocked room =>
    cases msg with
    | entry index term command result => exact .inr rfl
    | snapshot index term data => exact .inl (token (by rw [blocked]; rfl) behind)

theorem loop_step (elsewhere : ∀ branch, input ≠ .applyLoop branch)
    (stepped : process.step codec now input = some after) : after.loop = process.loop := by
  cases kind : input.background with
  | true => exact (undisturbed_step kind stepped).loop
  | false =>
    cases input with
    | applyLoop branch => exact absurd rfl (elsewhere branch)
    | installSnapshot args saved =>
      cases stepped
      rfl
    | readApplyCh saved =>
      cases readApplyCh_cases stepped with
      | routeEntry index term command result reader holding next =>
        obtain ⟨pending, calls, routed⟩ := routeEntry_eq
          { process with applied := process.applied + 1 } index term result
        rw [routed]
      | _ => rfl
    | _ => cases kind

theorem signals_step (elsewhere : ∀ branch, input ≠ .applyLoop branch)
    (stepped : process.step codec now input = some after) :
    process.node.Signals after.node :=
  (changes_step elsewhere stepped).keeps .refl .trans fun _ change => change.signals

theorem Awake.step (awake : process.Awake) (stepped : process.step codec now input = some after) :
    after.Awake := by
  by_cases loops : ∃ branch, input = .applyLoop branch
  · obtain ⟨branch, rfl⟩ := loops
    exact awake.applyLoop (applyLoop_cases stepped)
  · have elsewhere : ∀ branch, input ≠ .applyLoop branch := fun branch same => loops ⟨branch, same⟩
    intro behind
    rw [loop_step elsewhere stepped]
    rcases signals_step elsewhere stepped behind with token | ⟨pending, kept⟩
    · exact .inl token
    · rw [kept]
      exact awake pending

theorem applied_start (codec : Codec) (cfg : Config) (threshold boots : Nat) (disk : Disk) :
    (Process.start codec cfg threshold boots disk).node.lastApplied =
      (Process.start codec cfg threshold boots disk).node.commitIndex := by
  obtain ⟨term, data, booted⟩ := boot_eq cfg disk
  rw [Process.start, booted]

end Process

/-- An input does not move `commitIndex` back. -/
def Advancing (move : Move Process Incident) : Prop :=
  match move.event with
  | .input _ _ => move.before.node.commitIndex ≤ move.after.node.commitIndex
  | _ => True

instance decidableAdvancing (move : Move Process Incident) : Decidable (Advancing move) :=
  match move with
  | ⟨_, .input _ _, _⟩ => inferInstanceAs (Decidable (_ ≤ _))
  | ⟨_, .crash, _⟩ => isTrue trivial
  | ⟨_, .interrupt _ _ _, _⟩ => isTrue trivial

/-- In runs in which `commitIndex` only advances nothing is applied before it is committed. -/
theorem applied_lives {codec : Codec} {cfg : Config} {threshold boots : Nat} {disk : Disk}
    {moves : List (Move Process Incident)} {process : Process}
    (trace : (Process.lives codec cfg threshold).Trace (fun _ _ => True)
      (Process.start codec cfg threshold boots disk) moves process)
    (advancing : ∀ move ∈ moves, Advancing move) :
    process.node.lastApplied ≤ process.node.commitIndex := by
  have started (boots : Nat) (disk : Disk) :
      (Process.start codec cfg threshold boots disk).node.lastApplied ≤
        (Process.start codec cfg threshold boots disk).node.commitIndex :=
    Nat.le_of_eq (Process.applied_start codec cfg threshold boots disk)
  refine trace.record (fun moves process => (∀ move ∈ moves, Advancing move) →
    process.node.lastApplied ≤ process.node.commitIndex) (fun _ => started boots disk) ?_ advancing
  intro moves process incident next before _ happened advancing
  have earlier := before fun move member => advancing move (List.mem_append_left _ member)
  rcases Process.lives_cases happened with ⟨now, input, rfl, stepped⟩ | ⟨_, boots, disk, rfl⟩
  · exact applied_step earlier stepped (advancing ⟨process, .input now input, next⟩ (by simp))
  · exact started boots disk

/-- No wake-up is lost: over all lives of a process, whenever the apply loop waits in its
`select` and no token is pending, everything committed has been applied; and as long as
`commitIndex` only advances, nothing else has. -/
theorem no_lost_wakeup {codec : Codec} {cfg : Config} {threshold boots : Nat} {disk : Disk}
    {moves : List (Move Process Incident)} {process : Process}
    (trace : (Process.lives codec cfg threshold).Trace (fun _ _ => True)
      (Process.start codec cfg threshold boots disk) moves process)
    (waiting : process.loop = .select) (empty : process.node.commitNotifyC = false) :
    process.node.commitIndex ≤ process.node.lastApplied ∧
      ((∀ move ∈ moves, Advancing move) →
        process.node.lastApplied = process.node.commitIndex) := by
  have awake : process.Awake := by
    refine Process.lives_invariant ?_ (fun _ _ _ _ awake _ => awake.step) trace
    intro boots disk behind
    exact absurd (Process.applied_start codec cfg threshold boots disk) (Nat.ne_of_lt behind)
  have done : process.node.commitIndex ≤ process.node.lastApplied := by
    by_contra behind
    have noticed := awake (Nat.lt_of_not_le behind)
    simp [waiting, empty, ApplyLoop.draining] at noticed
  exact ⟨done, fun advancing => Nat.le_antisymm (applied_lives trace advancing) done⟩

/-- The follower of the membership example applies two entries, crashes and is started
again. -/
theorem no_lost_wakeup_restarted :
    ∃ moves process, (Process.lives Codec.sample followerConfig 1).Trace (fun _ _ => True)
        (follower 1) moves process ∧
      (process.loop = .select ∧ process.node.commitNotifyC = false ∧
        process.node.lastApplied = 2 ∧ ∀ move ∈ moves, Advancing move) ∧
      process.node.lastApplied = process.node.commitIndex := by
  obtain ⟨moves, process, trace, checked⟩ :=
    (Process.lives Codec.sample followerConfig 1).exists_trace (fun _ _ => True) (follower 1)
      (joinApplied ++ [.crash] ++ joinApplied ++ [.input 0 (.applyLoop .commit)])
      (fun moves process => process.loop = .select ∧ process.node.commitNotifyC = false ∧
        process.node.lastApplied = 2 ∧ ∀ move ∈ moves, Advancing move) (by decide +kernel)
  obtain ⟨waiting, empty, applied, advancing⟩ := of_decide_eq_true checked
  exact ⟨moves, process, trace, ⟨waiting, empty, applied, advancing⟩,
    (no_lost_wakeup trace waiting empty).2 advancing⟩

end KvStore

end RaftGo
