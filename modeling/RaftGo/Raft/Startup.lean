import RaftGo.Library.System
import RaftGo.Raft.Recovery
import RaftGo.Raft.Terms

/-! Start-up. `main` registers the RPC handlers and serves before `Run` has read the
data directory. A request that arrives in between is handled by a node that knows
nothing of its past, and what the handler persists replaces this past. -/

namespace RaftGo.Raft

open Library

/-- The requests served from the start. -/
inductive Request where
  | requestVote (now : Nat) (args : RequestVoteArgs)
  | appendEntries (now : Nat) (args : AppendEntriesArgs)
  | installSnapshot (args : InstallSnapshotArgs) (saved : Bool)
deriving DecidableEq

def Request.handle (node : RaftNode) : Request → RaftNode
  | .requestVote now args => (node.handleRequestVote now args).1
  | .appendEntries now args => (node.handleAppendEntries now args).1
  | .installSnapshot args saved => (node.handleInstallSnapshot args saved).1

/-- A pre-vote probe changes nothing. -/
def Request.isProbe : Request → Bool
  | .requestVote _ args => args.isPreVote
  | _ => false

/-- The request truncates the log at or before an index, or compacts it up to there. -/
def Request.Removes (node : RaftNode) (index : Nat) : Request → Prop
  | .requestVote _ _ => False
  | .appendEntries _ args => ∃ cut ≤ index, node.truncationIndex args = some cut
  | .installSnapshot args saved =>
    index ≤ (node.handleInstallSnapshot args saved).1.log.snapshotIndex

/-- How far `Run` has come. -/
inductive Stage where
  | created
  | loaded
  | restored
deriving DecidableEq, Repr

structure Starting where
  node : RaftNode
  stage : Stage := .created

inductive StartEvent where
  | loadState
  | restoreFromSnapshot
  | request (request : Request)
deriving DecidableEq

namespace Starting

/-- `New` over a data directory: the handlers can be called from here on. -/
def create (cfg : Config) (disk : Disk) : Starting where
  node := { newRaftNode cfg with disk := disk }

def step (starting : Starting) : StartEvent → Option Starting
  | .loadState => match starting.stage with
    | .created => some ⟨starting.node.loadState, .loaded⟩
    | _ => none
  | .restoreFromSnapshot => match starting.stage with
    | .loaded => some ⟨starting.node.restoreFromSnapshot, .restored⟩
    | _ => none
  | .request request => some { starting with node := request.handle starting.node }

def system : System Starting StartEvent where
  step := step

end Starting

namespace RaftNode

variable {node after : RaftNode}

/-- The state file holds the term and the vote in memory, and the log behind the
snapshot marker; an absent one stands for the zero state. -/
structure Mirrored (node : RaftNode) : Prop where
  currentTerm : node.disk.recovered.currentTerm = node.currentTerm
  votedFor : node.disk.recovered.votedFor = node.votedFor
  entries : ∀ index, node.log.snapshotIndex < index →
    node.disk.log.get index = node.log.get index

namespace Mirrored

theorem of_memory (saved : node.disk.state = some node.memory) : node.Mirrored where
  currentTerm := by simp [Disk.recovered, saved, memory]
  votedFor := by simp [Disk.recovered, saved, memory]
  entries index above := by simp [Disk.log, saved, memory]

theorem of_fresh (absent : node.disk.state = none) (fresh : node.memory = ⟨0, "", .new⟩) :
    node.Mirrored := by
  obtain ⟨term, vote, log⟩ : node.currentTerm = 0 ∧ node.votedFor = "" ∧ node.log = .new :=
    ⟨congrArg (·.currentTerm) fresh, congrArg (·.votedFor) fresh, congrArg (·.entries) fresh⟩
  refine ⟨?_, ?_, fun index _ => ?_⟩
  · simp [Disk.recovered, absent, term]
  · simp [Disk.recovered, absent, vote]
  · simp [Disk.log, absent, log]

theorem of_same (stored : node.Mirrored) (memory : after.memory = node.memory)
    (disk : after.disk = node.disk) : after.Mirrored := by
  obtain ⟨term, vote, log⟩ : after.currentTerm = node.currentTerm ∧
      after.votedFor = node.votedFor ∧ after.log = node.log :=
    ⟨congrArg (·.currentTerm) memory, congrArg (·.votedFor) memory, congrArg (·.entries) memory⟩
  exact ⟨disk ▸ term ▸ stored.currentTerm, disk ▸ vote ▸ stored.votedFor,
    disk ▸ log ▸ stored.entries⟩

theorem persists (stored : node.Mirrored) (persists : node.Persists after) : after.Mirrored := by
  cases persists with
  | rests memory disk journal => exact stored.of_same memory disk
  | saves marker disk journal => exact of_memory (by rw [disk])

theorem compacts {file : SnapshotFile} (compacts : node.Compacts after file) : after.Mirrored :=
  of_memory (by rw [compacts.disk])

theorem handle (stored : node.Mirrored) (request : Request) : (request.handle node).Mirrored := by
  cases request with
  | requestVote now args =>
    refine Mirrored.persists ?_ (node.persists_handleRequestVote now args)
    split
    · exact stored
    · exact stored.persists (persists_stepDown args.term)
  | appendEntries now args =>
    exact (stored.persists (persists_observeLeader args.term)).persists
      (persists_handleAppendEntries now args)
  | installSnapshot args saved =>
    have first := stored.persists (persists_stepDown args.term)
    rcases node.handleInstallSnapshot_stage args saved with second | ⟨_, second⟩
    · exact first.persists second
    · exact .compacts second

end Mirrored

/-- The term does not fall, and a vote stands for the rest of its term. -/
structure KeepsPromise (node after : RaftNode) : Prop where
  later : node.currentTerm ≤ after.currentTerm
  vote : after.currentTerm = node.currentTerm → node.votedFor ≠ "" →
    after.votedFor = node.votedFor

theorem keepsPromise_stepDown (node : RaftNode) (term : Nat) :
    KeepsPromise node (node.stepDown term) := by
  rcases node.stepDown_cases term with ⟨_, same⟩ | ⟨later, stepped⟩
  · rw [same]
    exact ⟨Nat.le_refl _, fun _ _ => rfl⟩
  · rw [stepped]
    exact ⟨Nat.le_of_lt later, fun same => absurd same (Nat.ne_of_gt later)⟩

theorem Advances.keepsPromise (advances : node.Advances after) : KeepsPromise node after := by
  obtain ⟨term, keeps⟩ := advances
  have stepped := node.keepsPromise_stepDown term
  refine ⟨keeps.currentTerm ▸ stepped.later, fun same voted => ?_⟩
  rw [keeps.currentTerm] at same
  rw [keeps.votedFor, stepped.vote same voted]

theorem keepsPromise_handle (node : RaftNode) (request : Request) :
    KeepsPromise node (request.handle node) := by
  cases request with
  | requestVote now args =>
    rcases node.handleRequestVote_cases now args with ⟨⟨term, stepped⟩, _⟩ |
      ⟨_, _, free, _, granted⟩
    · simp only [Request.handle, stepped]
      exact node.keepsPromise_stepDown term
    · have stepped := node.keepsPromise_stepDown args.term
      simp only [Request.handle, granted]
      refine ⟨stepped.later, fun same voted => ?_⟩
      have kept := stepped.vote same voted
      rcases free with none | again
      · exact absurd (kept.symm.trans none) voted
      · exact again.symm.trans kept
  | appendEntries now args => exact (advances_handleAppendEntries now args).keepsPromise
  | installSnapshot args saved => exact (advances_handleInstallSnapshot args saved).keepsPromise

theorem handle_of_isProbe {request : Request} (probe : request.isProbe = true) :
    request.handle node = node := by
  cases request with
  | requestVote now args =>
    simp only [Request.isProbe] at probe
    simp only [Request.handle, handleRequestVote, probe, ↓reduceIte, handlePreVote]
    split <;> rfl
  | _ => cases probe

/-- An entry behind the snapshot marker stays unless the request removes it. -/
theorem entry_handle (request : Request) {index : Nat} (above : node.log.snapshotIndex < index)
    (inside : index ≤ node.log.lastIndex) : request.Removes node index ∨
      (request.handle node).log.snapshotIndex < index ∧
      index ≤ (request.handle node).log.lastIndex ∧
      (request.handle node).log.get index = node.log.get index := by
  have kept {log : Log} (same : log = node.log) : log.snapshotIndex < index ∧
      index ≤ log.lastIndex ∧ log.get index = node.log.get index := by
    rw [same]
    exact ⟨above, inside, rfl⟩
  cases request with
  | requestVote now args =>
    refine .inr (kept ?_)
    rcases node.handleRequestVote_cases now args with ⟨⟨term, stepped⟩, _⟩ | ⟨_, _, _, _, granted⟩
    · simp only [Request.handle, stepped, log_stepDown]
    · simp only [Request.handle, granted]
      exact log_stepDown node args.term
  | appendEntries now args =>
    rcases node.log_handleAppendEntries_cases now args with same | ⟨_, truncates, merged⟩
    · exact .inr (kept same)
    · by_cases cut : ∃ cut ≤ index, node.truncationIndex args = some cut
      · exact .inl cut
      · have keeps := node.log.mergeEntries_keeps inside fun at' found => Nat.lt_of_not_le
          fun reached => cut ⟨at', reached, truncates.trans found⟩
        simp only [Request.handle, merged, Log.snapshotIndex_mergeEntries]
        exact .inr ⟨above, keeps.reach, keeps.get index above (Nat.le_refl _)⟩
  | installSnapshot args saved =>
    rcases node.log_handleInstallSnapshot_cases args saved with same | ⟨_, compacted⟩
    · exact .inr (kept same)
    · by_cases covered : index ≤ (node.handleInstallSnapshot args saved).1.log.snapshotIndex
      · exact .inl covered
      · have behind := Nat.lt_of_not_le covered
        refine .inr ⟨behind, ?_, ?_⟩
        · simp only [Request.handle, compacted, Log.lastIndex_compactTo]
          exact Nat.le_trans inside (Nat.le_max_left _ _)
        · rw [compacted, Log.snapshotIndex_compactTo] at behind
          simp only [Request.handle, compacted]
          exact node.log.get_compactTo above (Nat.lt_of_le_of_lt (Nat.le_max_right _ _) behind) _

theorem covered_handle (node : RaftNode) (request : Request) :
    (request.handle node).disk.covered = node.disk.covered ∨
      (request.handle node).disk.covered = (request.handle node).log.snapshotIndex := by
  have frame {middle after : RaftNode} (persists : middle.Persists after) :
      after.disk.covered = middle.disk.covered := by
    unfold Disk.covered
    rw [persists.snapshot]
  cases request with
  | requestVote now args =>
    refine .inl ((frame (node.persists_handleRequestVote now args)).trans ?_)
    split
    · rfl
    · exact frame (persists_stepDown args.term)
  | appendEntries now args =>
    exact .inl ((frame (persists_handleAppendEntries now args)).trans
      (frame (persists_observeLeader args.term)))
  | installSnapshot args saved =>
    rcases node.handleInstallSnapshot_stage args saved with second | ⟨_, second⟩
    · exact .inl ((frame second).trans (frame (persists_stepDown args.term)))
    · right
      simp only [Request.handle]
      rw [second.disk, second.log, Log.compactTo_of_lt _ second.ahead]
      rfl

end RaftNode

/-- A request that comes before `loadState` is a pre-vote probe, or the data directory
has nothing to add to the memory: no state file, or one that holds just that. -/
def Informed (starting : Starting) : StartEvent → Prop
  | .request request => starting.stage = .created → request.isProbe = true ∨
      starting.node.disk.state = none ∨ starting.node.disk.state = some starting.node.memory
  | _ => True

instance (starting : Starting) (event : StartEvent) : Decidable (Informed starting event) := by
  cases event with
  | request request => exact inferInstanceAs (Decidable (_ → _ ∨ _ ∨ _))
  | _ => exact isTrue trivial

/-- A request served after `loadState` has removed the entry at an index. -/
def Removed (moves : List (Move Starting StartEvent)) (index : Nat) : Prop :=
  ∃ move ∈ moves, move.before.stage ≠ .created ∧
    ∃ request, move.event = .request request ∧ request.Removes move.before.node index

theorem Removed.snoc {moves : List (Move Starting StartEvent)} {index : Nat}
    (removed : Removed moves index) (move : Move Starting StartEvent) :
    Removed (moves ++ [move]) index := by
  obtain ⟨earlier, member, rest⟩ := removed
  exact ⟨earlier, List.mem_append_left _ member, rest⟩

/-- A node being started over a data directory, and what it knows of it. -/
structure Remembers (disk : Disk) (moves : List (Move Starting StartEvent))
    (starting : Starting) : Prop where
  /-- Before `loadState` nothing has been written, or there was nothing to lose. -/
  unread : starting.stage = .created →
    starting.node.disk = disk ∧ starting.node.memory = ⟨0, "", .new⟩ ∨
      disk.log = .new ∧ starting.node.Mirrored
  stored : starting.stage ≠ .created → starting.node.Mirrored
  entries : starting.stage ≠ .created → ∀ index, disk.covered < index →
    index ≤ disk.log.lastIndex → Removed moves index ∨
      starting.node.disk.covered < index ∧ starting.node.log.snapshotIndex < index ∧
      index ≤ starting.node.log.lastIndex ∧ starting.node.log.get index = disk.log.get index

namespace Remembers

variable {disk : Disk} {moves : List (Move Starting StartEvent)} {starting next : Starting}

theorem create (cfg : Config) (disk : Disk) : Remembers disk [] (.create cfg disk) where
  unread _ := .inl ⟨rfl, rfl⟩
  stored started := absurd rfl started
  entries started := absurd rfl started

/-- Under the condition, what is not a probe meets a node that knows its past. -/
theorem stored_of_informed (remembers : Remembers disk moves starting) {request : Request}
    (informed : Informed starting (.request request)) (real : request.isProbe = false) :
    starting.node.Mirrored := by
  by_cases started : starting.stage = .created
  · rcases remembers.unread started with ⟨_, fresh⟩ | ⟨_, stored⟩
    · rcases informed started with probe | none | same
      · cases real.symm.trans probe
      · exact .of_fresh none fresh
      · exact .of_memory same
    · exact stored
  · exact remembers.stored started

/-- Then the data directory was empty, if nothing has been read yet. -/
theorem empty_of_informed (remembers : Remembers disk moves starting) {request : Request}
    (informed : Informed starting (.request request)) (real : request.isProbe = false)
    (started : starting.stage = .created) : disk.log = .new := by
  rcases remembers.unread started with ⟨same, fresh⟩ | ⟨empty, _⟩
  · rcases informed started with probe | none | saved
    · cases real.symm.trans probe
    · rw [← same, Disk.log, none]
      rfl
    · rw [← same, Disk.log, saved, fresh]
      rfl
  · exact empty

theorem request (remembers : Remembers disk moves starting) {request : Request}
    (informed : Informed starting (.request request)) :
    Remembers disk (moves ++ [⟨starting, .request request,
      { starting with node := request.handle starting.node }⟩])
      { starting with node := request.handle starting.node } := by
  cases probe : request.isProbe with
  | true =>
    rw [RaftNode.handle_of_isProbe probe]
    exact ⟨remembers.unread, remembers.stored, fun started index above inside =>
      (remembers.entries started index above inside).imp (·.snoc _) id⟩
  | false =>
    have stored := remembers.stored_of_informed informed probe
    refine ⟨?_, fun _ => stored.handle request, ?_⟩
    · intro started
      exact .inr ⟨remembers.empty_of_informed informed probe started, stored.handle request⟩
    · intro started index above inside
      rcases remembers.entries started index above inside with removed | ⟨file, marker, reach, same⟩
      · exact .inl (removed.snoc _)
      · rcases starting.node.entry_handle request marker reach with removes |
          ⟨marker', reach', kept⟩
        · exact .inl ⟨_, List.mem_append_right _ (List.mem_singleton_self _), started, request, rfl,
            removes⟩
        · refine .inr ⟨?_, marker', reach', kept.trans same⟩
          rcases starting.node.covered_handle request with unchanged | replaced
          · exact unchanged ▸ file
          · exact replaced ▸ marker'

theorem loadState (remembers : Remembers disk moves starting) (boundary : disk.log.snapshotIndex ≤
    disk.covered) (started : starting.stage = .created) :
    Remembers disk (moves ++ [⟨starting, .loadState, ⟨starting.node.loadState, .loaded⟩⟩])
      ⟨starting.node.loadState, .loaded⟩ := by
  have disk_eq : starting.node.loadState.disk = starting.node.disk := by
    unfold RaftNode.loadState
    split <;> rfl
  have stored : starting.node.loadState.Mirrored := by
    cases file : starting.node.disk.state with
    | none =>
      have same : starting.node.loadState = starting.node := by simp [RaftNode.loadState, file]
      rw [same]
      rcases remembers.unread started with ⟨_, fresh⟩ | ⟨_, stored⟩
      · exact .of_fresh file fresh
      · exact stored
    | some state =>
      refine .of_memory ?_
      rw [disk_eq, file]
      simp [RaftNode.loadState, file, RaftNode.memory]
  refine ⟨by simp, fun _ => stored, fun _ index above inside => ?_⟩
  rcases remembers.unread started with ⟨same, fresh⟩ | ⟨empty, _⟩
  · have log : starting.node.loadState.log = disk.log := by
      have zero : starting.node.log = .new := congrArg (·.entries) fresh
      unfold RaftNode.loadState Disk.log
      rw [← same]
      cases starting.node.disk.state with
      | none => exact zero
      | some state => rfl
    refine .inr ⟨?_, ?_, ?_, ?_⟩
    · rw [disk_eq, same]
      exact above
    · rw [log]
      exact Nat.lt_of_le_of_lt boundary above
    · rw [log]
      exact inside
    · rw [log]
  · rw [empty] at inside
    exact absurd (Nat.lt_of_lt_of_le above inside) (Nat.not_lt_zero _)

theorem restoreFromSnapshot (remembers : Remembers disk moves starting)
    (started : starting.stage = .loaded) :
    Remembers disk (moves ++ [⟨starting, .restoreFromSnapshot,
      ⟨starting.node.restoreFromSnapshot, .restored⟩⟩])
      ⟨starting.node.restoreFromSnapshot, .restored⟩ := by
  have later : starting.stage ≠ .created := by simp [started]
  obtain ⟨term, data, restored⟩ := starting.node.restoreFromSnapshot_eq
  have stored := remembers.stored later
  refine ⟨by simp, fun _ => ?_, fun _ index above inside => ?_⟩
  · rw [restored]
    refine ⟨stored.currentTerm, stored.votedFor, fun index above => ?_⟩
    change (starting.node.log.compactTo _ _).snapshotIndex < index at above
    rw [Log.snapshotIndex_compactTo] at above
    have marker := Nat.lt_of_le_of_lt (Nat.le_max_left _ _) above
    exact (stored.entries index marker).trans (starting.node.log.get_compactTo marker
      (Nat.lt_of_le_of_lt (Nat.le_max_right _ _) above) _).symm
  · rcases remembers.entries later index above inside with removed | ⟨file, marker, reach, same⟩
    · exact .inl (removed.snoc _)
    · rw [restored]
      refine .inr ⟨file, ?_, ?_, ?_⟩
      · rw [Log.snapshotIndex_compactTo]
        exact Nat.max_lt.mpr ⟨marker, file⟩
      · rw [Log.lastIndex_compactTo]
        exact Nat.le_trans reach (Nat.le_max_left _ _)
      · exact (starting.node.log.get_compactTo marker file _).trans same

theorem step (remembers : Remembers disk moves starting)
    (boundary : disk.log.snapshotIndex ≤ disk.covered) {event : StartEvent}
    (informed : Informed starting event) (stepped : Starting.system.step starting event = some next) :
    Remembers disk (moves ++ [⟨starting, event, next⟩]) next := by
  cases event with
  | loadState =>
    simp only [Starting.system, Starting.step] at stepped
    split at stepped
    · rename_i started
      cases stepped
      exact remembers.loadState boundary started
    · cases stepped
  | restoreFromSnapshot =>
    simp only [Starting.system, Starting.step] at stepped
    split at stepped
    · rename_i started
      cases stepped
      exact remembers.restoreFromSnapshot started
    · cases stepped
  | request request =>
    cases stepped
    exact remembers.request informed

end Remembers

theorem keepsPromise_stored {disk : Disk} {moves : List (Move Starting StartEvent)}
    {starting next : Starting} {event : StartEvent} (remembers : Remembers disk moves starting)
    (informed : Informed starting event) (stepped : Starting.system.step starting event = some next) :
    starting.node.disk.recovered.currentTerm ≤ next.node.disk.recovered.currentTerm ∧
      (next.node.disk.recovered.currentTerm = starting.node.disk.recovered.currentTerm →
        starting.node.disk.recovered.votedFor ≠ "" →
          next.node.disk.recovered.votedFor = starting.node.disk.recovered.votedFor) := by
  have unwritten (same : next.node.disk = starting.node.disk) :
      starting.node.disk.recovered.currentTerm ≤ next.node.disk.recovered.currentTerm ∧
        (next.node.disk.recovered.currentTerm = starting.node.disk.recovered.currentTerm →
          starting.node.disk.recovered.votedFor ≠ "" →
            next.node.disk.recovered.votedFor = starting.node.disk.recovered.votedFor) := by
    rw [same]
    exact ⟨Nat.le_refl _, fun _ _ => rfl⟩
  cases event with
  | loadState =>
    simp only [Starting.system, Starting.step] at stepped
    split at stepped <;> cases stepped
    refine unwritten ?_
    unfold RaftNode.loadState
    dsimp only
    split <;> rfl
  | restoreFromSnapshot =>
    simp only [Starting.system, Starting.step] at stepped
    split at stepped <;> cases stepped
    obtain ⟨term, data, restored⟩ := starting.node.restoreFromSnapshot_eq
    exact unwritten (by rw [restored])
  | request request =>
    cases stepped
    cases probe : request.isProbe with
    | true => exact unwritten (by rw [RaftNode.handle_of_isProbe probe])
    | false =>
      have before := remembers.stored_of_informed informed probe
      have after := before.handle request
      have promise := starting.node.keepsPromise_handle request
      dsimp only
      rw [before.currentTerm, before.votedFor, after.currentTerm, after.votedFor]
      exact ⟨promise.later, promise.vote⟩

/-- The state file still has the entry at an index the snapshot file covers: the process
stopped between `saveSnapshot` and `persist`. -/
def Disk.Leftover (disk : Disk) (index : Nat) : Prop :=
  disk.log.snapshotIndex < index ∧ index ≤ disk.covered

instance (disk : Disk) (index : Nat) : Decidable (disk.Leftover index) :=
  inferInstanceAs (Decidable (_ ∧ _))

/-- If no request but probes comes before `loadState`, unless there is nothing to
load: the stored term never falls, a stored vote stands for its term, and an entry
stored before the restart stays until a request removes it from the log loaded, unless
it was left over there already. -/
theorem start_up_remembers {cfg : Config} {disk : Disk} {memory : PersistedState}
    (backs : disk.Backs memory) {moves : List (Move Starting StartEvent)} {starting : Starting}
    (trace : Starting.system.Trace Informed (.create cfg disk) moves starting) :
    (∀ move ∈ moves,
      move.before.node.disk.recovered.currentTerm ≤ move.after.node.disk.recovered.currentTerm ∧
      (move.after.node.disk.recovered.currentTerm = move.before.node.disk.recovered.currentTerm →
        move.before.node.disk.recovered.votedFor ≠ "" →
          move.after.node.disk.recovered.votedFor = move.before.node.disk.recovered.votedFor)) ∧
    ∀ index, disk.log.snapshotIndex < index → index ≤ disk.log.lastIndex → ¬disk.Leftover index →
      starting.node.disk.log.get index = disk.log.get index ∨ Removed moves index := by
  have remembers : ∀ moves starting, Starting.system.Trace Informed (.create cfg disk) moves
      starting → Remembers disk moves starting := by
    intro moves starting trace
    exact trace.record (Remembers disk) (.create cfg disk) fun _ _ _ _ remembers informed stepped =>
      remembers.step backs.log_le informed stepped
  refine ⟨?_, ?_⟩
  · intro move member
    obtain ⟨prior, reached, informed, stepped⟩ := trace.of_move member
    exact keepsPromise_stored (remembers prior _ reached) informed stepped
  · intro index stored inside wanted
    have above : disk.covered < index := Nat.lt_of_not_le fun covers => wanted ⟨stored, covers⟩
    have final := remembers moves starting trace
    by_cases started : starting.stage = .created
    · rcases final.unread started with ⟨same, _⟩ | ⟨empty, _⟩
      · exact .inl (by rw [same])
      · rw [empty] at inside
        exact absurd (Nat.lt_of_lt_of_le above inside) (Nat.not_lt_zero _)
    · rcases final.entries started index above inside with removed | ⟨_, marker, _, same⟩
      · exact .inr removed
      · exact .inl (((final.stored started).entries index marker).trans same)

-- What is left over goes with the first vote after the restart, though nothing removes it.
example :
    let disk : Disk := {
      state := some ⟨1, "", ⟨{}, [{ term := 1, index := 1 }, { term := 1, index := 2 }]⟩⟩
      snapshot := some { index := 2, term := 1, data := [] } }
    disk.Leftover 1 ∧ disk.Leftover 2 ∧
      ((Starting.system.replay (.create { id := "node1", peers := ["node2:7001"] } disk)
        [.loadState, .restoreFromSnapshot, .request (.requestVote 0 ⟨2, "node2", 2, 1, false⟩)]).map
          fun result => result.2.node.disk.log.rest) = some [] := by
  decide +kernel

/-- The data directory of a node that has voted for `node2` in term 2 and stores one
entry. -/
def votedDisk : Disk where
  state := some ⟨2, "node2", ⟨{}, [{ term := 1, index := 1 }]⟩⟩

theorem backs_votedDisk : votedDisk.Backs ⟨2, "node2", ⟨{}, [{ term := 1, index := 1 }]⟩⟩ :=
  ⟨rfl, rfl, by simp [votedDisk]⟩

/-- The node over this directory, right after `New`. -/
def restarted : Starting :=
  .create { id := "node1", peers := ["node2:7001", "node3:7001"] } votedDisk

/-- `node3` probes before the file has been read and is granted a vote after that. -/
theorem start_up_remembers_vote :
    ∃ moves starting, Starting.system.Trace Informed restarted moves starting ∧
      starting.node.disk.recovered.currentTerm = 3 ∧
      (∀ move ∈ moves, move.before.node.disk.recovered.currentTerm ≤
        move.after.node.disk.recovered.currentTerm) ∧
      (starting.node.disk.log.get 1 = votedDisk.log.get 1 ∨ Removed moves 1) := by
  obtain ⟨moves, starting, trace, checked⟩ := Starting.system.exists_trace Informed restarted
    [.request (.requestVote 0 ⟨3, "node3", 1, 1, true⟩), .loadState,
      .request (.requestVote 0 ⟨3, "node3", 1, 1, false⟩), .restoreFromSnapshot]
    (fun _ starting => starting.node.disk.recovered.currentTerm = 3) (by decide +kernel)
  obtain ⟨promise, entries⟩ := start_up_remembers backs_votedDisk trace
  exact ⟨moves, starting, trace, of_decide_eq_true checked, fun move member =>
    (promise move member).1, entries 1 (by decide) (by decide) (by decide)⟩

/-- A request for a vote that comes first is granted on the zero state: in an earlier
term it makes the stored term fall, in the same term it replaces the stored vote, and
either way the stored entry is gone. -/
theorem start_up_forgets :
    (Starting.system.step restarted (.request (.requestVote 0 ⟨1, "node3", 0, 0, false⟩))).map
        (·.node.disk.state) = some (some ⟨1, "node3", .new⟩) ∧
      (Starting.system.step restarted (.request (.requestVote 0 ⟨2, "node3", 0, 0, false⟩))).map
        (·.node.disk.state) = some (some ⟨2, "node3", .new⟩) ∧
      restarted.node.disk.state = some ⟨2, "node2", ⟨{}, [{ term := 1, index := 1 }]⟩⟩ := by
  decide +kernel

end RaftGo.Raft
