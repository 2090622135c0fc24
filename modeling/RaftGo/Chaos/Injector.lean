import RaftGo.Chaos.Network

/-! Fault injection (`chaos/injector.go`). An injection installs rules under fresh IDs and
returns the function that removes them again. -/

namespace RaftGo.Chaos

/-- `rseq` counts the rule IDs handed out. -/
structure ChaosInjector where
  net : ChaosNetwork := {}
  rseq : Nat := 0
deriving DecidableEq

/-- A clean-up function, by the IDs it removes one after the other. -/
abbrev Cleanup := List String

/-- `fmt.Sprintf("%s-%d", stem, number)`. -/
def ruleID (stem : String) (number : Nat) : String := stem ++ "-" ++ toString number

namespace ChaosInjector

variable (ci : ChaosInjector)

def nextID (stem : String) : ChaosInjector × String :=
  ({ ci with rseq := ci.rseq + 1 }, ruleID stem (ci.rseq + 1))

def addRule (rule : Rule) : ChaosInjector := { ci with net := ci.net.addRule rule }

/-- The injections of one rule. -/
def inject (stem : String) (rule : String → Rule) : ChaosInjector × Cleanup :=
  let (ci, id) := ci.nextID stem
  (ci.addRule (rule id), [id])

def partitionNode (nodeID : String) : ChaosInjector × Cleanup :=
  let (ci, outID) := ci.nextID "part-out"
  let (ci, inID) := ci.nextID "part-in"
  let ci := ci.addRule { id := outID, src := nodeID, act := .drop }
  let ci := ci.addRule { id := inID, dst := nodeID, act := .drop }
  (ci, [outID, inID])

def partitionAsymmetric (src dst : String) : ChaosInjector × Cleanup :=
  ci.inject "part-asym" fun id => { id, src, dst, act := .drop }

def injectPacketLoss (src dst : String) (prob : ℚ) : ChaosInjector × Cleanup :=
  ci.inject "loss" fun id => { id, src, dst, act := .loss, prob }

def injectDelay (src dst : String) (d : Int) : ChaosInjector × Cleanup :=
  ci.inject "delay" fun id => { id, src, dst, act := .delay, d }

def healAll : ChaosInjector := { ci with net := ci.net.clearRules }

/-- Call a clean-up function. -/
def cleanUp (ids : Cleanup) : ChaosInjector :=
  ids.foldl (fun ci id => { ci with net := ci.net.removeRule id }) ci

theorem cleanUp_eq (ids : Cleanup) :
    ci.cleanUp ids = { ci with net := { rules := ci.net.rules.filter (·.id ∉ ids) } } := by
  induction ids generalizing ci with
  | nil =>
    rw [List.filter_eq_self.mpr (by simp)]
    rfl
  | cons id rest ih =>
    rw [cleanUp, List.foldl_cons, ← cleanUp, ih]
    simp [ChaosNetwork.removeRule, List.filter_filter, Bool.and_comm]

end ChaosInjector

/-! A partition cuts the node off, unless an older rule decides its messages. -/

/-- The two rules of a partition, as they are installed. -/
def partitionRules (nodeID : String) (number : Nat) : List Rule :=
  [{ id := ruleID "part-out" (number + 1), src := nodeID },
    { id := ruleID "part-in" (number + 2), dst := nodeID }]

theorem partitionNode_eq (ci : ChaosInjector) (nodeID : String) :
    ci.partitionNode nodeID =
      ({ net := { rules := ci.net.rules ++ partitionRules nodeID ci.rseq }, rseq := ci.rseq + 2 },
        (partitionRules nodeID ci.rseq).map (·.id)) := by
  simp [ChaosInjector.partitionNode, ChaosInjector.nextID, ChaosInjector.addRule,
    ChaosNetwork.addRule, partitionRules]

theorem drop_of_mem_partitionRules {nodeID : String} {number : Nat} :
    ∀ rule ∈ partitionRules nodeID number, rule.act = .drop := by
  simp [partitionRules]

theorem covers_partitionRules (nodeID other : String) (number : Nat) :
    (partitionRules nodeID number).any (·.covers nodeID other) = true ∧
      (partitionRules nodeID number).any (·.covers other nodeID) = true := by
  simp [partitionRules, Rule.covers]

/-- As long as nobody removes them, the two rules stand in front of everything that was
installed after them. -/
theorem rules_partitioned (ci : ChaosInjector) (nodeID : String) {changes : List Change}
    (spared : ∀ id ∈ (ci.partitionNode nodeID).2, Change.remove id ∉ changes) :
    ∃ newer, ((ci.partitionNode nodeID).1.net.changeAll changes).rules =
      ChaosNetwork.remaining ci.net.rules changes ++ (partitionRules nodeID ci.rseq ++ newer) := by
  obtain ⟨newer, rules⟩ := (ci.partitionNode nodeID).1.net.rules_changeAll changes
  rw [partitionNode_eq] at spared rules ⊢
  have kept : ChaosNetwork.remaining (partitionRules nodeID ci.rseq) changes =
      partitionRules nodeID ci.rseq :=
    List.filter_eq_self.mpr fun rule member => by
      simpa using spared rule.id (List.mem_map_of_mem member)
  rw [ChaosNetwork.remaining_append, kept, List.append_assoc] at rules
  exact ⟨newer, rules⟩

/-- No message between the node and another one passes after a partition, whatever is added
and removed except its own two rules, exactly when in either direction the oldest remaining
rule from before the partition that covers the message drops it for sure. -/
theorem partition_cuts_iff (ci : ChaosInjector) (nodeID other : String) (changes : List Change)
    (spared : ∀ id ∈ (ci.partitionNode nodeID).2, Change.remove id ∉ changes) :
    (∀ draw, 0 ≤ draw → draw < 1 →
      (((ci.partitionNode nodeID).1.net.changeAll changes).evaluate draw nodeID other).1 = .drop ∧
      (((ci.partitionNode nodeID).1.net.changeAll changes).evaluate draw other nodeID).1 = .drop) ↔
      (∀ rule, (ChaosNetwork.remaining ci.net.rules changes).find? (·.covers nodeID other) =
        some rule → rule.Cuts) ∧
      (∀ rule, (ChaosNetwork.remaining ci.net.rules changes).find? (·.covers other nodeID) =
        some rule → rule.Cuts) := by
  obtain ⟨newer, rules⟩ := rules_partitioned ci nodeID spared
  obtain ⟨outbound, inbound⟩ := covers_partitionRules nodeID other ci.rseq
  simp only [ChaosNetwork.evaluate, rules, forall_and]
  exact and_congr (cut_iff _ drop_of_mem_partitionRules outbound)
    (cut_iff _ drop_of_mem_partitionRules inbound)

/-- So an RPC of the partitioned node fails, unless an older rule decides it. -/
theorem send_partitioned (ci : ChaosInjector) {nodeID other : String} {changes : List Change}
    (spared : ∀ id ∈ (ci.partitionNode nodeID).2, Change.remove id ∉ changes)
    (clear : ∀ rule, (ChaosNetwork.remaining ci.net.rules changes).find? (·.covers nodeID other) =
      some rule → rule.Cuts)
    {draw : ℚ} (low : 0 ≤ draw) (high : draw < 1) {Reply : Type} (base : Except String Reply) :
    ((ci.partitionNode nodeID).1.net.changeAll changes).send draw nodeID other base =
      .error ("chaos: packet dropped (" ++ nodeID ++ "→" ++ other ++ ")") := by
  obtain ⟨newer, rules⟩ := rules_partitioned ci nodeID spared
  have covered := (covers_partitionRules nodeID other ci.rseq).1
  rw [ChaosNetwork.send, ChaosNetwork.evaluate, rules, if_pos]
  exact (cut_iff _ drop_of_mem_partitionRules covered).mpr clear draw low high

/-- Messages between two other nodes are delayed, and `node3` loses what it is sent. -/
def lossy : ChaosInjector :=
  let (ci, _) := ({} : ChaosInjector).injectDelay "node2" "node3" 20000000
  (ci.injectPacketLoss "" "node3" 1).1

/-- Neither rule lets through what `node1` sends to `node3`; nor does a delay for everybody
that is installed after the partition. -/
theorem partition_cuts_node1 :
    (∀ id ∈ (lossy.partitionNode "node1").2, Change.remove id ∉
      [Change.remove "delay-1", .add { id := "delay-9", act := .delay, d := 5 }]) ∧
    ∀ draw, 0 ≤ draw → draw < 1 →
      (((lossy.partitionNode "node1").1.net.changeAll
        [.remove "delay-1", .add { id := "delay-9", act := .delay, d := 5 }]).evaluate draw
          "node1" "node3").1 = .drop ∧
      (((lossy.partitionNode "node1").1.net.changeAll
        [.remove "delay-1", .add { id := "delay-9", act := .delay, d := 5 }]).evaluate draw
          "node3" "node1").1 = .drop := by
  have spared : ∀ id ∈ (lossy.partitionNode "node1").2, Change.remove id ∉
      [Change.remove "delay-1", .add { id := "delay-9", act := .delay, d := 5 }] := by decide
  refine ⟨spared, (partition_cuts_iff lossy "node1" "node3" _ spared).mpr ⟨?_, ?_⟩⟩
  · intro rule found
    have loss : rule = { id := "loss-2", dst := "node3", act := .loss, prob := 1 } :=
      Option.some.inj (found.symm.trans (by decide))
    rw [loss]
    exact .inr ⟨rfl, le_rfl⟩
  · intro rule found
    have none : (ChaosNetwork.remaining lossy.net.rules
      [.remove "delay-1", .add { id := "delay-9", act := .delay, d := 5 }]).find?
        (·.covers "node3" "node1") = none := by decide
    rw [none] at found
    cases found

/-- A delay for everybody that was installed first still forwards what the partitioned node
sends and what is sent to it. -/
theorem partition_behind_delay :
    let (ci, _) := ({} : ChaosInjector).injectDelay "" "" 5
    ((ci.partitionNode "node1").1.net.evaluate 0 "node1" "node2").1 = .forward ∧
      ((ci.partitionNode "node1").1.net.evaluate 0 "node2" "node1").1 = .forward := by
  decide

end RaftGo.Chaos
