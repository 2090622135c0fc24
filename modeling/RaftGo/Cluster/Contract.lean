import RaftGo.Cluster.System

/-! Invariants of a cluster, stated process by process and RPC by RPC. A contract
says what is known of each of them relative to a ghost state that every process
moves for its own part only; keeping a contract is then a question about one
process and the message it handles, and the plumbing of the cluster is done here
once. -/

namespace RaftGo

open Raft KvStore Library Relation

variable {ι : Type}

/-- A statement about each process and each RPC goroutine of a cluster. -/
structure Shape (ι : Type) where
  process : ι → Process → Prop
  poll : Poll ι → Prop
  append : AppendRpc ι → Prop
  install : InstallRpc ι → Prop

namespace Shape

structure Holds (shape : Shape ι) (cluster : Cluster ι) : Prop where
  process : ∀ i, shape.process i (cluster.process i)
  poll : ∀ poll ∈ cluster.polls, shape.poll poll
  append : ∀ rpc ∈ cluster.appends, shape.append rpc
  install : ∀ rpc ∈ cluster.installs, shape.install rpc

/-- The shape that says nothing. -/
def any (ι : Type) : Shape ι where
  process _ _ := True
  poll _ := True
  append _ := True
  install _ := True

/-- The goroutine of an outgoing RPC satisfies the shape. -/
def Sends (shape : Shape ι) (caller : ι) (boot : Nat) : Outgoing → Prop
  | .append peer term args =>
    shape.append { caller, boot, peer, term, args, phase := .requested }
  | .install peer term args =>
    shape.install { caller, boot, peer, term, args, phase := .requested }

variable {shape : Shape ι} {cluster : Cluster ι}

theorem any_holds (cluster : Cluster ι) : (any ι).Holds cluster :=
  ⟨fun _ => trivial, fun _ _ => trivial, fun _ _ => trivial, fun _ _ => trivial⟩

theorem Holds.addPoll (holds : shape.Holds cluster) {poll : Poll ι} (fresh : shape.poll poll) :
    shape.Holds (cluster.addPoll poll) where
  process := holds.process
  poll other member := by
    rcases List.mem_append.mp member with old | new
    · exact holds.poll other old
    · exact List.mem_singleton.mp new ▸ fresh
  append := holds.append
  install := holds.install

theorem Holds.setPoll (holds : shape.Holds cluster) {poll : Poll ι} (index : Nat)
    (changed : shape.poll poll) : shape.Holds (cluster.setPoll index poll) where
  process := holds.process
  poll other member := by
    rcases List.mem_or_eq_of_mem_set member with old | rfl
    · exact holds.poll other old
    · exact changed
  append := holds.append
  install := holds.install

theorem Holds.setAppend (holds : shape.Holds cluster) {rpc : AppendRpc ι} (index : Nat)
    (changed : shape.append rpc) : shape.Holds (cluster.setAppend index rpc) where
  process := holds.process
  poll := holds.poll
  append other member := by
    rcases List.mem_or_eq_of_mem_set member with old | rfl
    · exact holds.append other old
    · exact changed
  install := holds.install

theorem Holds.setInstall (holds : shape.Holds cluster) {rpc : InstallRpc ι} (index : Nat)
    (changed : shape.install rpc) : shape.Holds (cluster.setInstall index rpc) where
  process := holds.process
  poll := holds.poll
  append := holds.append
  install other member := by
    rcases List.mem_or_eq_of_mem_set member with old | rfl
    · exact holds.install other old
    · exact changed

end Shape

structure Contract (ι Ghost : Type) where
  shape : Ghost → Shape ι
  /-- A process moves the ghost state. -/
  moves : Ghost → ι → Ghost → Prop
  sound : Ghost → Prop
  sound_moves : ∀ {ghost i next}, sound ghost → moves ghost i next → sound next
  process_moves : ∀ {ghost i next j process}, sound ghost → moves ghost i next → j ≠ i →
    (shape ghost).process j process → (shape next).process j process
  poll_moves : ∀ {ghost i next poll}, sound ghost → moves ghost i next →
    (shape ghost).poll poll → (shape next).poll poll
  append_moves : ∀ {ghost i next rpc}, sound ghost → moves ghost i next →
    (shape ghost).append rpc → (shape next).append rpc
  install_moves : ∀ {ghost i next rpc}, sound ghost → moves ghost i next →
    (shape ghost).install rpc → (shape next).install rpc

namespace Contract

variable {Ghost : Type} (contract : Contract ι Ghost)

def Path (i : ι) : Ghost → Ghost → Prop :=
  ReflTransGen fun ghost next => contract.moves ghost i next

/-- Process `i` can move the ghost state to where the goal holds. -/
def Reaches (ghost : Ghost) (i : ι) (goal : Ghost → Prop) : Prop :=
  ∃ next, contract.Path i ghost next ∧ goal next

structure Related (ghost : Ghost) (cluster : Cluster ι) : Prop where
  sound : contract.sound ghost
  holds : (contract.shape ghost).Holds cluster

/-- What is known of the process that takes the next step; `base` is an
invariant established before. -/
structure At (base : Shape ι) (ghost : Ghost) (i : ι) (process : Process) : Prop where
  sound : contract.sound ghost
  base : base.process i process
  process : (contract.shape ghost).process i process

variable {contract} {ghost next : Ghost} {i : ι}

theorem Reaches.here {goal : Ghost → Prop} (reached : goal ghost) :
    contract.Reaches ghost i goal :=
  ⟨ghost, .refl, reached⟩

theorem Reaches.move {goal : Ghost → Prop} (moved : contract.moves ghost i next)
    (rest : contract.Reaches next i goal) : contract.Reaches ghost i goal := by
  obtain ⟨last, path, reached⟩ := rest
  exact ⟨last, .head moved path, reached⟩

theorem Reaches.weaken {goal wider : Ghost → Prop} (reaches : contract.Reaches ghost i goal)
    (implied : ∀ ghost, goal ghost → wider ghost) : contract.Reaches ghost i wider := by
  obtain ⟨last, path, reached⟩ := reaches
  exact ⟨last, path, implied last reached⟩

theorem Reaches.bind {first goal : Ghost → Prop} (reaches : contract.Reaches ghost i first)
    (rest : ∀ middle, first middle → contract.Reaches middle i goal) :
    contract.Reaches ghost i goal := by
  obtain ⟨middle, path, reached⟩ := reaches
  obtain ⟨last, path', done⟩ := rest middle reached
  exact ⟨last, path.trans path', done⟩

theorem Path.sound (path : contract.Path i ghost next) (sound : contract.sound ghost) :
    contract.sound next := by
  induction path with
  | refl => exact sound
  | tail _ moved ih => exact contract.sound_moves ih moved

/-- What a move keeps, a path keeps. -/
theorem Path.keeps (path : contract.Path i ghost next) (kept : Ghost → Prop)
    (sound : contract.sound ghost)
    (stable : ∀ {ghost next}, contract.sound ghost → contract.moves ghost i next →
      kept ghost → kept next) (holds : kept ghost) : kept next := by
  induction path with
  | refl => exact holds
  | tail before moved ih => exact stable (Path.sound before sound) moved ih

/-- A process moves the ghost state for its own part only. -/
theorem Path.process (path : contract.Path i ghost next) (sound : contract.sound ghost) {j : ι}
    (other : j ≠ i) {process : Process} (known : (contract.shape ghost).process j process) :
    (contract.shape next).process j process :=
  path.keeps _ sound (fun sound moved => contract.process_moves sound moved other) known

theorem Path.poll (path : contract.Path i ghost next) (sound : contract.sound ghost)
    {poll : Poll ι} (known : (contract.shape ghost).poll poll) :
    (contract.shape next).poll poll :=
  path.keeps _ sound (fun sound moved => contract.poll_moves sound moved) known

theorem Path.append (path : contract.Path i ghost next) (sound : contract.sound ghost)
    {rpc : AppendRpc ι} (known : (contract.shape ghost).append rpc) :
    (contract.shape next).append rpc :=
  path.keeps _ sound (fun sound moved => contract.append_moves sound moved) known

theorem Path.install (path : contract.Path i ghost next) (sound : contract.sound ghost)
    {rpc : InstallRpc ι} (known : (contract.shape ghost).install rpc) :
    (contract.shape next).install rpc :=
  path.keeps _ sound (fun sound moved => contract.install_moves sound moved) known

variable [DecidableEq ι] {deployment : Deployment ι} {cluster after : Cluster ι} {input : Input}

/-- Feeding an input keeps the relation if it does so for the process fed and
for the RPCs it sends. -/
theorem Related.feed (related : contract.Related ghost cluster)
    (fed : deployment.feed cluster i input = some after) (path : contract.Path i ghost next)
    (own : ∀ process, (cluster.process i).step deployment.codec cluster.clock input =
      some process → (contract.shape next).process i process)
    (sent : ∀ out ∈ (cluster.process i).outgoing deployment.codec cluster.clock input,
      (contract.shape next).Sends i (cluster.process i).boots out) :
    contract.Related next after := by
  obtain ⟨process, stepped, rfl⟩ := Deployment.feed_cases fed
  have sound := related.sound
  refine ⟨path.sound sound, ?_, fun _ member => path.poll sound (related.holds.poll _ member),
    ?_, ?_⟩
  · intro j
    by_cases same : j = i
    · subst same
      simpa using own process stepped
    · simpa [Function.update_of_ne same] using
        path.process sound same (related.holds.process j)
  · intro rpc member
    rcases List.mem_append.mp member with old | new
    · exact path.append sound (related.holds.append rpc old)
    · obtain ⟨out, sending, opened⟩ := List.mem_filterMap.mp new
      have fresh := sent out sending
      cases out with
      | append peer term args => exact Option.some.inj opened ▸ fresh
      | install peer term args => cases opened
  · intro rpc member
    rcases List.mem_append.mp member with old | new
    · exact path.install sound (related.holds.install rpc old)
    · obtain ⟨out, sending, opened⟩ := List.mem_filterMap.mp new
      have fresh := sent out sending
      cases out with
      | append peer term args => cases opened
      | install peer term args => exact Option.some.inj opened ▸ fresh

theorem Related.reboot (related : contract.Related ghost cluster) {disk : Disk}
    (path : contract.Path i ghost next)
    (own : (contract.shape next).process i
      (deployment.startProcess i ((cluster.process i).boots + 1) disk)) :
    contract.Related next (deployment.reboot cluster i disk) := by
  have sound := related.sound
  refine ⟨path.sound sound, ?_, fun _ member => path.poll sound (related.holds.poll _ member),
    fun _ member => path.append sound (related.holds.append _ member),
    fun _ member => path.install sound (related.holds.install _ member)⟩
  intro j
  by_cases same : j = i
  · subst same
    simpa [Deployment.reboot] using own
  · simpa [Deployment.reboot, Function.update_of_ne same] using
      path.process sound same (related.holds.process j)

end Contract

end RaftGo
