import RaftGo.Cluster.Inputs
import RaftGo.Cluster.Linear
import RaftGo.KvStore.Mirror

/-! One state machine behind all maps. What the nodes of a cluster have committed in a run
is one history, and the map of every process is at any moment that of a first part of it:
snapshots are taken, sent, installed and read back after a crash without losing track. -/

namespace RaftGo

open Raft KvStore Library Library.Consensus

variable {ι : Type}

/-- `permits` restricts the inputs a process may take, also those it does not survive. -/
def Event.Heeds (permits : Process → Input → Prop) (cluster : Cluster ι) : Event ι → Prop
  | .run action => ∀ fed ∈ action.input? cluster, permits (cluster.process fed.1) fed.2
  | .interrupt action _ _ => ∀ fed ∈ action.input? cluster, permits (cluster.process fed.1) fed.2
  | .crash _ => True

instance decidableHeeds (permits : Process → Input → Prop)
    [∀ process input, Decidable (permits process input)] (cluster : Cluster ι)
    (event : Event ι) : Decidable (event.Heeds permits cluster) := by
  induction event using Event.casesOn with
  | run action =>
    exact inferInstanceAs (Decidable (∀ fed ∈ action.input? cluster,
      permits (cluster.process fed.1) fed.2))
  | interrupt action i writes =>
    exact inferInstanceAs (Decidable (∀ fed ∈ action.input? cluster,
      permits (cluster.process fed.1) fed.2))
  | crash i => exact isTrue trivial

section History

variable [Fintype ι] [DecidableEq ι] {deployment : Deployment ι} {archive : Archive ι}

end History

/-- The processes mirror a history, and so do the snapshots under way between them. -/
structure Mirrored (codec : Codec) (history : History) (cluster : Cluster ι) : Prop where
  process : ∀ i, Mirrors codec history (cluster.process i)
  install : ∀ rpc ∈ cluster.installs, 0 < rpc.args.lastIncludedIndex →
    Faithful codec history rpc.args.lastIncludedIndex rpc.args.data

namespace Mirrored

variable [DecidableEq ι] {deployment : Deployment ι} {history : History} {cluster next : Cluster ι}

omit [DecidableEq ι] in
theorem step (mirrored : Mirrored deployment.codec history cluster) {i : ι} {input : Input}
    {after : Process} (shows' : (cluster.process i).node.Shows history)
    (unhurried : Unhurried (cluster.process i) input) (carried : Deployment.Carried cluster input)
    (stepped : (cluster.process i).step deployment.codec cluster.clock input = some after) :
    Mirrors deployment.codec history after := by
  refine (mirrored.process i).step shows' unhurried ?_ stepped
  rintro args saved rfl positive
  obtain ⟨rpc, member, rfl⟩ := carried.install args saved rfl
  exact mirrored.install rpc member positive

theorem sent {codec : Codec} {now : Nat} {process after : Process} {input : Input}
    (mirrors : Mirrors codec history after) {peer : String} {term : Nat}
    {args : InstallSnapshotArgs}
    (sending : .install peer term args ∈ process.outgoing codec now input)
    (stepped : process.step codec now input = some after) (positive : 0 < args.lastIncludedIndex) :
    Faithful codec history args.lastIncludedIndex args.data := by
  obtain ⟨_, _, sent⟩ := Process.outgoing_cases sending stepped
  obtain ⟨target, _, built⟩ := List.mem_map.mp sent
  unfold RaftNode.replicateTo at built
  split at built <;> cases built
  exact mirrors.memory positive

theorem act (mirrored : Mirrored deployment.codec history cluster)
    (shown : ∀ i, (cluster.process i).node.Shows history) {action : Action ι}
    (unhurried : ∀ fed ∈ action.input? cluster, Unhurried (cluster.process fed.1) fed.2)
    (acted : deployment.act cluster action = some next) :
    Mirrored deployment.codec history next := by
  rcases Deployment.act_given acted with
    ⟨same, installs⟩ | ⟨i, input, after, given, stepped, updated, carried, sent⟩
  · exact ⟨same ▸ mirrored.process, installs ▸ mirrored.install⟩
  have own := mirrored.step (shown i) (unhurried _ given) carried stepped
  refine ⟨?_, fun rpc member positive => ?_⟩
  · rw [updated]
    intro j
    by_cases same : j = i
    · subst same
      rwa [Function.update_self]
    · rw [Function.update_of_ne same]
      exact mirrored.process j
  · rcases sent.install rpc member with ⟨old, earlier, same⟩ | ⟨peer, term, sending⟩
    · rw [← same] at positive ⊢
      exact mirrored.install old earlier positive
    · exact Mirrored.sent own sending stepped positive

/-- A process starts over from a data directory that some process has left behind. -/
theorem reboot (mirrored : Mirrored deployment.codec history cluster) {i : ι} {disk : Disk}
    {memory : PersistedState} (backs : disk.Backs memory)
    (files : ∀ file, disk.snapshot = some file →
      Faithful deployment.codec history file.index file.data) :
    Mirrored deployment.codec history (deployment.reboot cluster i disk) where
  process j := by
    by_cases same : j = i
    · subst same
      simp only [Deployment.reboot, Function.update_self]
      exact .start _ _ _ backs files
    · simp only [Deployment.reboot, Function.update_of_ne same]
      exact mirrored.process j
  install := mirrored.install

omit [DecidableEq ι] in
theorem initial : Mirrored deployment.codec history deployment.initial where
  process _ := .start _ _ _ .empty nofun
  install := nofun

theorem run {moves : List (Move (Cluster ι) (Event ι))}
    (trace : deployment.system.Trace
      (fun cluster event => event.Compacting cluster ∧ event.Heeds Unhurried cluster)
      deployment.initial moves cluster)
    (shown : ∀ seen ∈ System.visited deployment.initial moves, ∀ i,
      (seen.process i).node.Shows history) :
    Mirrored deployment.codec history cluster := by
  induction trace with
  | nil => exact initial
  | @snoc moves cluster next event earlier permitted taken ih =>
    have past : ∀ seen ∈ System.visited deployment.initial moves, ∀ i,
        (seen.process i).node.Shows history := by
      intro seen member
      refine shown seen ?_
      rw [System.visited, List.map_append, ← List.cons_append]
      exact List.mem_append_left _ member
    have mirrored := ih past
    have here := past cluster earlier.mem_visited
    have there := shown next (earlier.snoc permitted taken).mem_visited
    cases event with
    | run action => exact mirrored.act here permitted.2 taken
    | crash i =>
      cases taken
      refine mirrored.reboot (here i).backed fun file found => ?_
      exact (mirrored.process i).files file
        (List.mem_filterMap.mpr ⟨_, List.mem_cons_self, found⟩)
    | interrupt action i writes =>
      simp only [Deployment.system, Deployment.step, Option.bind_eq_bind,
        Option.bind_eq_some_iff] at taken
      obtain ⟨reached, acted, disk, found, built⟩ := taken
      cases built
      -- the writes of the interrupted input are among those of the uninterrupted one
      have uninterrupted := mirrored.act here permitted.2 acted
      have written : disk ∈ (reached.process i).node.journal :=
        List.mem_of_mem_drop (List.mem_of_mem_dropLast (List.mem_of_getElem? found))
      have backed := (there i).backed
      simp only [Deployment.reboot, Function.update_self, RaftNode.Backed, Deployment.startProcess,
        Process.start, RaftNode.boot_disk] at backed
      refine mirrored.reboot backed fun file held => ?_
      exact (uninterrupted.process i).files file
        (List.mem_filterMap.mpr ⟨disk, List.mem_cons_of_mem _ written, held⟩)

end Mirrored

/-- The apply loop is between two entries, and no snapshot waits for it. -/
def KvStore.Process.Rests (process : Process) : Prop :=
  process.loop.midEntry = false ∧ process.awaitsRestore = false

instance (process : Process) : Decidable process.Rests :=
  inferInstanceAs (Decidable (_ ∧ _))

end RaftGo
