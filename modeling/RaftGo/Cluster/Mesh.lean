import RaftGo.Cluster.System
import RaftGo.Library.Majority

/-! Full-mesh deployments: every node lists the addresses of all others. What a
node counts as a majority of its peers and itself is a majority of the nodes. -/

namespace RaftGo

open Library

variable {ι : Type}

/-- Every node has its own identifier and address and knows all other nodes. -/
structure Deployment.FullMesh (deployment : Deployment ι) : Prop where
  id_injective : ∀ i j, (deployment.config i).id = (deployment.config j).id → i = j
  id_nonempty : ∀ i, (deployment.config i).id ≠ ""
  addr_injective : ∀ i j, deployment.addr i = deployment.addr j → i = j
  peers_nodup : ∀ i, (deployment.config i).peers.Nodup
  mem_peers : ∀ i peer,
    peer ∈ (deployment.config i).peers ↔ ∃ j, j ≠ i ∧ deployment.addr j = peer

namespace Deployment

variable [Fintype ι] [DecidableEq ι] (deployment : Deployment ι)

/-- The node itself and those whose address is among the chosen ones. -/
def quorum (i : ι) (chosen : List String) : Finset ι :=
  Finset.univ.filter fun j => j = i ∨ deployment.addr j ∈ chosen

variable {deployment}

theorem mem_quorum {i j : ι} {chosen : List String} :
    j ∈ deployment.quorum i chosen ↔ j = i ∨ deployment.addr j ∈ chosen := by
  simp [quorum]

theorem FullMesh.card_quorum (mesh : deployment.FullMesh) {i : ι} {chosen : List String}
    (nodup : chosen.Nodup) (known : ∀ peer ∈ chosen, peer ∈ (deployment.config i).peers) :
    (deployment.quorum i chosen).card = chosen.length + 1 := by
  have outside : i ∉ Finset.univ.filter fun j => deployment.addr j ∈ chosen := by
    intro member
    obtain ⟨j, other, same⟩ := (mesh.mem_peers i _).mp
      (known _ (Finset.mem_filter.mp member).2)
    exact other (mesh.addr_injective j i same)
  have split : deployment.quorum i chosen =
      insert i (Finset.univ.filter fun j => deployment.addr j ∈ chosen) := by
    ext j
    simp [mem_quorum]
  have image : (Finset.univ.filter fun j => deployment.addr j ∈ chosen).image deployment.addr =
      chosen.toFinset := by
    ext peer
    simp only [Finset.mem_image, Finset.mem_filter, Finset.mem_univ, true_and, List.mem_toFinset]
    constructor
    · rintro ⟨j, member, rfl⟩
      exact member
    · intro member
      obtain ⟨j, _, rfl⟩ := (mesh.mem_peers i peer).mp (known peer member)
      exact ⟨j, member, rfl⟩
  have injective : Function.Injective deployment.addr := fun i j => mesh.addr_injective i j
  rw [split, Finset.card_insert_of_notMem outside, ← Finset.card_image_of_injective _ injective,
    image, List.toFinset_card_of_nodup nodup]

theorem FullMesh.card (mesh : deployment.FullMesh) (i : ι) :
    Fintype.card ι = (deployment.config i).peers.length + 1 := by
  rw [← mesh.card_quorum (mesh.peers_nodup i) fun _ member => member, ← Finset.card_univ]
  congr 1
  ext j
  simp only [Finset.mem_univ, mem_quorum, true_iff]
  by_cases same : j = i
  · exact .inl same
  · exact .inr ((mesh.mem_peers i _).mpr ⟨j, same, rfl⟩)

/-- Enough peers, counted with the node itself, are a majority of the nodes. -/
theorem FullMesh.majority (mesh : deployment.FullMesh) {i : ι} {chosen : List String}
    (nodup : chosen.Nodup) (known : ∀ peer ∈ chosen, peer ∈ (deployment.config i).peers)
    (enough : ((deployment.config i).peers.length + 1) / 2 + 1 ≤ chosen.length + 1) :
    IsMajority (deployment.quorum i chosen) := by
  unfold IsMajority
  rw [mesh.card i, mesh.card_quorum nodup known]
  omega

end Deployment

end RaftGo
