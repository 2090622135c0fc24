import Mathlib.Data.Fintype.Basic
import Mathlib.Tactic.FinCases
import RaftGo.Cluster.Mesh

/-! The deployment of `infra/docker-compose.yml`: three bootstrap nodes that know
each other, and two that start without peers and join later. -/

namespace RaftGo

open Raft KvStore

/-! The nodes by name, in a deployment that has that many. -/

section Nodes

variable {n : Nat}

def node1 : Fin (n + 1) := 0

def node2 : Fin (n + 2) := 1

def node3 : Fin (n + 3) := 2

def node4 : Fin (n + 4) := 3

end Nodes

def composeId : Fin 5 → String
  | 0 => "node1"
  | 1 => "node2"
  | 2 => "node3"
  | 3 => "node4"
  | 4 => "node5"

def composeAddr : Fin 5 → String
  | 0 => "node1:7001"
  | 1 => "node2:7001"
  | 2 => "node3:7001"
  | 3 => "node4:7001"
  | 4 => "node5:7001"

/-- `RAFT_PEERS`. -/
def composePeers : Fin 5 → List String
  | 0 => ["node2:7001", "node3:7001"]
  | 1 => ["node1:7001", "node3:7001"]
  | 2 => ["node1:7001", "node2:7001"]
  | _ => []

def composeConfig (i : Fin 5) : Config where
  id := composeId i
  peers := composePeers i
  electionTimeoutMinMs := 250
  electionTimeoutMaxMs := 500
  heartbeatIntervalMs := 50
  selfAddr := composeAddr i

/-- The bootstrap nodes alone. -/
noncomputable def bootstrap : Deployment (Fin 3) where
  config i := composeConfig (i.castLE (by decide))
  addr i := composeAddr (i.castLE (by decide))
  codec := Codec.unary.reserve setOp

/-- All five containers. -/
noncomputable def compose : Deployment (Fin 5) where
  config := composeConfig
  addr := composeAddr
  codec := Codec.unary.reserve setOp

theorem bootstrap_mesh : bootstrap.FullMesh where
  id_injective := by decide +kernel
  id_nonempty := by decide +kernel
  addr_injective := by decide +kernel
  peers_nodup := by decide +kernel
  mem_peers i peer := by
    fin_cases i <;>
      simp [bootstrap, composeConfig, composePeers, composeAddr, Fin.exists_fin_succ, eq_comm]

end RaftGo
