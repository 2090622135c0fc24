import RaftGo.Cluster.Compose
import RaftGo.Cluster.Lineage

/-! The members of a cluster that starts from a set of bootstrap nodes, and what a
node shows of them. -/

namespace RaftGo

open Raft KvStore Library

variable {ι : Type} [DecidableEq ι]

/-- The seeds know each other when they start; nothing is said of other processes. -/
structure Deployment.Bootstrap (deployment : Deployment ι) (seeds : Finset ι) : Prop where
  addr_injective : Function.Injective deployment.addr
  selfAddr : ∀ i ∈ seeds, (deployment.config i).selfAddr = deployment.addr i
  mem_peers : ∀ i ∈ seeds, ∀ peer, peer ∈ (deployment.config i).peers ↔
    ∃ j ∈ seeds, j ≠ i ∧ deployment.addr j = peer

/-- The addresses of the seeds. -/
def Deployment.members (deployment : Deployment ι) (seeds : Finset ι) : Finset String :=
  seeds.image deployment.addr

/-- The membership changes process `i` has applied, in order. -/
def appliedBy (i : ι) (moves : List (Move (Cluster ι) (Event ι))) : List LogEntry :=
  (takenBy i moves).filter (·.isConfig)

/-- No crash, and no call of `TakeSnapshot`. -/
def Smooth (cluster : Cluster ι) (event : Event ι) : Prop :=
  event.crashes = false ∧ event.Permitted (fun _ process input =>
    ∀ saved, input = .readApplyCh saved → process.reader.takesSnapshot = false) cluster

instance (cluster : Cluster ι) (event : Event ι) : Decidable (Smooth cluster event) :=
  inferInstanceAs (Decidable (_ ∧ _))

variable {deployment : Deployment ι} {seeds : Finset ι}

omit [DecidableEq ι] in
theorem Deployment.Bootstrap.mirrors (bootstrap : deployment.Bootstrap seeds) {i : ι}
    (seed : i ∈ seeds) :
    Mirrors (deployment.addr i) (deployment.members seeds) (deployment.config i).peers := by
  intro addr
  rw [bootstrap.mem_peers i seed, Deployment.members, Finset.mem_image]
  constructor
  · rintro ⟨j, present, other, rfl⟩
    exact ⟨fun same => other (bootstrap.addr_injective same), j, present, rfl⟩
  · rintro ⟨other, j, present, rfl⟩
    exact ⟨j, present, fun same => other (same ▸ rfl), rfl⟩

theorem appliedBy_snoc (i : ι) (moves : List (Move (Cluster ι) (Event ι)))
    (cluster next : Cluster ι) (event : Event ι) :
    appliedBy i (moves ++ [⟨cluster, event, next⟩]) =
      appliedBy i moves ++ ((event.taken? cluster i).filter (·.isConfig)).toList := by
  unfold appliedBy
  rw [takenBy_snoc, List.filter_append]
  cases event.taken? cluster i with
  | none => simp
  | some entry => cases config : entry.isConfig <;> simp [config, Option.filter]

/-- The view of a node is what the changes make of the members. -/
structure Shows (members : Finset String) (changes : List LogEntry) (node : RaftNode) : Prop where
  mirrors : Mirrors node.config.selfAddr (alterAll members changes) node.peers
  member : node.config.selfAddr ∈ alterAll members changes

namespace Shows

variable {members : Finset String} {changes : List LogEntry} {node after : RaftNode}
  {entry : LogEntry}

theorem view_eq (shows : Shows members changes node) : node.view = alterAll members changes :=
  shows.mirrors.view shows.member

theorem frame (shows : Shows members changes node) (config : after.config = node.config)
    (peers : after.peers = node.peers) : Shows members changes after := by
  refine ⟨?_, ?_⟩
  · rw [config, peers]
    exact shows.mirrors
  · rw [config]
    exact shows.member

theorem snoc (shows : Shows members changes node) (stays : ¬ entry.Removes node.config.selfAddr)
    (config : after.config = node.config)
    (peers : after.peers = entry.reconfigure node.config.selfAddr node.peers) :
    Shows members (changes ++ [entry]) after := by
  refine ⟨?_, ?_⟩
  · rw [config, peers, alterAll_snoc]
    exact shows.mirrors.reconfigure stays
  · rw [config, alterAll_snoc]
    exact Mirrors.mem_alter shows.member stays

/-- A change that is shown already makes no difference. -/
theorem again (shows : Shows members (changes ++ [entry]) node)
    (stays : ¬ entry.Removes node.config.selfAddr) (config : after.config = node.config)
    (peers : after.peers = entry.reconfigure node.config.selfAddr node.peers) :
    Shows members (changes ++ [entry]) after := by
  refine ⟨?_, ?_⟩
  · have mirrors := shows.mirrors
    rw [alterAll_snoc] at mirrors ⊢
    rw [config, peers]
    exact mirrors.reconfigure_again stays
  · rw [config]
    exact shows.member

end Shows

omit [DecidableEq ι] in
/-- The seeds start with the same view. -/
theorem Deployment.Bootstrap.shows (bootstrap : deployment.Bootstrap seeds) {i : ι}
    (seed : i ∈ seeds) :
    Shows (deployment.members seeds) [] (deployment.initial.process i).node := by
  have mirrors := bootstrap.mirrors seed
  have member : deployment.addr i ∈ deployment.members seeds := Finset.mem_image_of_mem _ seed
  rw [← bootstrap.selfAddr i seed] at mirrors member
  exact ⟨mirrors, member⟩

theorem compose_bootstrap : compose.Bootstrap {0, 1, 2} where
  addr_injective := by decide +kernel
  selfAddr := by decide +kernel
  mem_peers i seed peer := by
    fin_cases i <;> simp [compose, composeConfig, composePeers, composeAddr, eq_comm] at seed ⊢

end RaftGo
