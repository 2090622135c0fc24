import RaftGo.Cluster.ElectionSafety
import RaftGo.Cluster.Lineage
import RaftGo.KvStore.Recovery
import RaftGo.Raft.WellFormed

/-! The representation of logs through crashes: a restart recovers a log that the
memory of its node had, so what every operation keeps survives it. -/

namespace RaftGo

open Raft KvStore Library

variable {ι : Type} [DecidableEq ι] {deployment : Deployment ι} {cluster next : Cluster ι}
  {event : Event ι}

/-- What a crash of process `i` leaves in its data directory. -/
inductive Relapse (deployment : Deployment ι) (cluster : Cluster ι) (i : ι) (disk : Disk) :
    Prop where
  | idle (same : disk = (cluster.process i).node.disk)
  | torn (input : Input) (after : Process)
      (stepped : (cluster.process i).step deployment.codec cluster.clock input = some after)
      (carried : Deployment.Carried cluster input)
      (passing : disk ∈ (cluster.process i).node.passing after.node)

theorem crash_cases (crashes : event.crashes = true)
    (stepped : deployment.step cluster event = some next) :
    ∃ i disk, next = deployment.reboot cluster i disk ∧ Relapse deployment cluster i disk := by
  cases event with
  | run action => cases crashes
  | crash i =>
    cases stepped
    exact ⟨i, _, rfl, .idle rfl⟩
  | interrupt action i writes =>
    simp only [Deployment.step, Option.bind_eq_bind, Option.bind_eq_some_iff] at stepped
    obtain ⟨reached, acted, disk, found, built⟩ := stepped
    cases built
    have member := List.mem_of_getElem? found
    rcases Deployment.act_process acted i with same | ⟨input, fed, _, carried⟩
    · simp [same, RaftNode.passing] at member
    · exact ⟨i, disk, rfl, .torn input _ fed carried member⟩

omit [DecidableEq ι] in
/-- What is recovered was in memory before the operation or became so by it. -/
theorem Relapse.recovered {i : ι} {disk : Disk} (relapse : Relapse deployment cluster i disk)
    (backed : (cluster.process i).node.Backed) : ∃ memory, disk.Backs memory ∧
      (memory.entries = (cluster.process i).node.log ∨ ∃ input after,
        (cluster.process i).step deployment.codec cluster.clock input = some after ∧
          Deployment.Carried cluster input ∧ memory.entries = after.node.log) := by
  cases relapse with
  | idle same =>
    subst same
    exact ⟨_, backed, .inl rfl⟩
  | torn input after stepped carried passing =>
    have member : disk ∈ (cluster.process i).crashes after := by simp [Process.crashes, passing]
    obtain ⟨memory, point, backs⟩ := Process.backs_crashes backed stepped member
    refine ⟨memory, backs, ?_⟩
    simp only [Process.points, List.mem_cons, List.not_mem_nil, or_false] at point
    rcases point with rfl | rfl | rfl
    · exact .inl rfl
    · exact .inl (Process.log_midpoint _ input)
    · exact .inr ⟨input, after, stepped, carried, rfl⟩

/-- Every log is in shape and backed by its data directory. -/
structure Represented (cluster : Cluster ι) : Prop where
  lineage : ∃ changes, Lineage changes cluster
  backed : ∀ i, (cluster.process i).node.Backed

namespace Represented

omit [DecidableEq ι] in
theorem initial (deployment : Deployment ι) : Represented deployment.initial where
  lineage := ⟨[], .initial⟩
  backed i := Disk.Backs.empty.boot (deployment.config i)

theorem turn {i : ι} {input : Input} (represented : Represented cluster)
    (turn : Turn deployment cluster event next i input) : Represented next := by
  obtain ⟨changes, lineage⟩ := represented.lineage
  refine ⟨⟨_, lineage.turn turn⟩, fun j => ?_⟩
  by_cases acts : j = i
  · subst acts
    exact Process.backed_step (represented.backed j) turn.stepped
  · rw [turn.others j acts]
    exact represented.backed j

theorem crash {i : ι} {disk : Disk} (represented : Represented cluster)
    (relapse : Relapse deployment cluster i disk) :
    Represented (deployment.reboot cluster i disk) := by
  obtain ⟨changes, lineage⟩ := represented.lineage
  obtain ⟨memory, backs, source⟩ := relapse.recovered (represented.backed i)
  -- the operation in progress may have created a membership change
  have formed : ∃ more, changes ⊆ more ∧ memory.entries.Formed more := by
    rcases source with same | ⟨input, after, stepped, carried, same⟩
    · exact ⟨changes, List.Subset.refl _, same ▸ (lineage.process i).log⟩
    · let more := changes ++ ((cluster.process i).created? input).toList
      have grown : changes ⊆ more := List.subset_append_left _ _
      refine ⟨more, grown, ?_⟩
      rw [same]
      refine (Process.formed_step ((lineage.process i).mono grown) ?_ ?_ stepped).log
      · intro entry made
        simp [more, Option.mem_def.mp made]
      · intro args request
        obtain ⟨rpc, sending, rfl⟩ := carried.append args request
        exact (lineage.append rpc sending).mono grown
  obtain ⟨more, grown, formed⟩ := formed
  have log : (boot (deployment.config i) disk).log = memory.entries :=
    congrArg PersistedState.entries ((memory_boot _ disk).trans backs.recovered)
  obtain ⟨term, data, booted⟩ := boot_eq (deployment.config i) disk
  have follows : (boot (deployment.config i) disk).state = .follower := by rw [booted]; rfl
  refine ⟨⟨more, fun j => ?_, fun rpc member => (lineage.append rpc member).mono grown⟩,
    fun j => ?_⟩
  · by_cases restarts : j = i
    · subst restarts
      simp only [Deployment.reboot, Function.update_self]
      exact ⟨log.symm ▸ formed, fun leads => absurd follows leads⟩
    · simp only [Deployment.reboot, Function.update_of_ne restarts]
      exact (lineage.process j).mono grown
  · by_cases restarts : j = i
    · subst restarts
      simp only [Deployment.reboot, Function.update_self]
      exact backs.boot _
    · simp only [Deployment.reboot, Function.update_of_ne restarts]
      exact represented.backed j

theorem step (represented : Represented cluster)
    (stepped : deployment.step cluster event = some next) : Represented next := by
  cases crashes : event.crashes with
  | true =>
    obtain ⟨i, disk, rfl, relapse⟩ := crash_cases crashes stepped
    exact represented.crash relapse
  | false =>
    rcases turn_or_pause crashes stepped with pause | ⟨i, input, turn⟩
    · obtain ⟨changes, lineage⟩ := represented.lineage
      exact ⟨⟨changes, pause.process ▸ lineage.process, pause.appends ▸ lineage.append⟩,
        pause.process ▸ represented.backed⟩
    · exact represented.turn turn

end Represented

/-- In every state a cluster reaches, whatever its members, snapshots and crashes,
every entry of every log and of every `AppendEntries` stands at its index, and only
a snapshot marker may lack a term. -/
theorem log_representation {moves : List (Move (Cluster ι) (Event ι))}
    (trace : deployment.system.Trace (fun _ _ => True) deployment.initial moves cluster) :
    (∀ i, (cluster.process i).node.log.entries ≠ [] ∧
      PlacedFrom (cluster.process i).node.log.sentinel.index (cluster.process i).node.log.entries ∧
      ∀ entry ∈ (cluster.process i).node.log.entries.tail, 1 ≤ entry.term) ∧
    ∀ rpc ∈ cluster.appends, PlacedFrom (rpc.args.prevLogIndex + 1) rpc.args.entries ∧
      ∀ entry ∈ rpc.args.entries, 1 ≤ entry.term := by
  have represented : Represented cluster :=
    trace.invariant (.initial deployment) fun _ _ _ represented _ stepped =>
      represented.step stepped
  obtain ⟨changes, lineage⟩ := represented.lineage
  refine ⟨fun i => ⟨by simp [Log.entries], ?_, ?_⟩, fun rpc member => ⟨?_, ?_⟩⟩
  · intro k entry found
    cases k with
    | zero =>
      cases found
      rfl
    | succ k =>
      have placed := (lineage.process i).log.entries.placed k entry found
      rw [placed, Log.snapshotIndex]
      omega
  · intro entry member
    exact Nat.one_le_iff_ne_zero.mpr ((lineage.process i).log.entries.stamped entry member)
  · intro k entry found
    have placed := (lineage.append rpc member).placed k entry found
    omega
  · intro entry inside
    exact Nat.one_le_iff_ne_zero.mpr ((lineage.append rpc member).stamped entry inside)

/-- A leader accepts `AddPeer` and crashes while its requests are under way. -/
theorem log_representation_bootstrap :
    ∃ moves cluster, bootstrap.system.Trace (fun _ _ => True) bootstrap.initial moves cluster ∧
      (cluster.process 0).node.log.rest ≠ [] ∧ cluster.appends ≠ [] ∧
      PlacedFrom (cluster.process 0).node.log.sentinel.index
        (cluster.process 0).node.log.entries ∧
      ∀ rpc ∈ cluster.appends, PlacedFrom (rpc.args.prevLogIndex + 1) rpc.args.entries := by
  obtain ⟨moves, cluster, trace, checked⟩ := bootstrap.system.exists_trace (fun _ _ => True)
    bootstrap.initial
    (firstElection ++ [.run (.internal 0 (.addPeer "node4:7001")), .crash 0])
    (fun _ cluster => decide ((cluster.process 0).node.log.rest ≠ []) &&
      decide (cluster.appends ≠ [])) (by decide +kernel)
  obtain ⟨stored, sent⟩ := Bool.and_eq_true_iff.mp checked
  obtain ⟨logs, requests⟩ := log_representation trace
  exact ⟨moves, cluster, trace, of_decide_eq_true stored, of_decide_eq_true sent,
    (logs 0).2.1, fun rpc member => (requests rpc member).1⟩

end RaftGo
