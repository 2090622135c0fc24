import RaftGo.Cluster.Simulation
import RaftGo.KvStore.Lives
import RaftGo.KvStore.Progress
import RaftGo.Raft.Formed

/-! Where membership changes come from and where they go, in runs without crashes:
every change a node takes from its log was created by an accepted `AddPeer` or
`RemovePeer` somewhere in the cluster. Snapshots may be taken and installed. -/

namespace RaftGo

open Raft KvStore Library

namespace KvStore.Process

variable {codec : Codec} {now : Nat} {process after : Process} {input : Input}
  {changes : List LogEntry}

theorem formed_step (formed : process.node.Formed changes)
    (created : ∀ entry ∈ process.created? input, entry ∈ changes)
    (requests : ∀ args, input = .appendEntries args → args.Formed changes)
    (stepped : process.step codec now input = some after) : after.node.Formed changes := by
  have moved := nodeStep_of_step stepped
  generalize after.node = node at moved ⊢
  cases moved with
  | requestVote args => exact formed.handleRequestVote now args
  | appendEntries args => exact formed.handleAppendEntries (requests args rfl) now
  | installSnapshot args saved => exact formed.handleInstallSnapshot args saved
  | voteReply term votes majority reply =>
    exact formed.handleVoteReply now term votes majority reply
  | appendReply peer term args reply => exact formed.handleAppendReply now peer term args reply
  | installReply peer term args reply => exact formed.handleInstallReply peer term args reply
  | becomeCandidate eligible => exact formed.becomeCandidate
  | heartbeat => exact formed.heartbeatTick now
  | configure branch locked behind =>
    have advanced : RaftNode.Formed changes
        { process.node with lastApplied := process.node.lastApplied + 1 } :=
      ⟨formed.log, formed.elected⟩
    exact advanced.applyConfigEntry now _
  | takeSnapshot data saved holding => exact formed.takeSnapshot data saved
  | submit op => exact formed.submit _
  | addPeer rpcAddr => exact formed.addPeer now created
  | removePeer rpcAddr => exact formed.removePeer now created
  | _ => exact ⟨formed.log, formed.elected⟩

end KvStore.Process

variable {ι : Type} [DecidableEq ι]

/-- A process goes down. -/
def Event.crashes : Event ι → Bool
  | .run _ => false
  | .interrupt _ _ _ => true
  | .crash _ => true

/-- The entry process `i` takes from its log in an event. -/
def Event.taken? (cluster : Cluster ι) (event : Event ι) (i : ι) : Option LogEntry :=
  event.input?.bind fun (j, input) => if j = i then (cluster.process i).taken? input else none

/-- The membership change created in an event, by an accepted call. -/
def Event.created? (cluster : Cluster ι) (event : Event ι) : Option LogEntry :=
  event.input?.bind fun (i, input) => (cluster.process i).created? input

/-- The entries process `i` has taken from its log, in order. -/
def takenBy (i : ι) (moves : List (Move (Cluster ι) (Event ι))) : List LogEntry :=
  moves.filterMap fun move => move.event.taken? move.before i

/-- The membership changes created in a run, in order. -/
def created (moves : List (Move (Cluster ι) (Event ι))) : List LogEntry :=
  moves.filterMap fun move => move.event.created? move.before

section

variable (moves : List (Move (Cluster ι) (Event ι))) (cluster next : Cluster ι) (event : Event ι)

@[simp] theorem takenBy_snoc (i : ι) : takenBy i (moves ++ [⟨cluster, event, next⟩]) =
    takenBy i moves ++ (event.taken? cluster i).toList := by
  unfold takenBy
  rw [List.filterMap_append]
  cases taken : event.taken? cluster i <;> simp [taken]

omit [DecidableEq ι] in
@[simp] theorem created_snoc : created (moves ++ [⟨cluster, event, next⟩]) =
    created moves ++ (event.created? cluster).toList := by
  unfold created
  rw [List.filterMap_append]
  cases made : event.created? cluster <;> simp [made]

end

variable {deployment : Deployment ι} {cluster next : Cluster ι} {event : Event ι}

/-- Process `i` takes an input in an event. -/
structure Turn (deployment : Deployment ι) (cluster : Cluster ι) (event : Event ι)
    (next : Cluster ι) (i : ι) (input : Input) : Prop where
  stepped : (cluster.process i).step deployment.codec cluster.clock input = some (next.process i)
  others : ∀ j, j ≠ i → next.process j = cluster.process j
  sent : Deployment.Sent deployment cluster next i input
  carried : Deployment.Carried cluster input
  taken : ∀ j, event.taken? cluster j = if i = j then (cluster.process i).taken? input else none
  created : event.created? cluster = (cluster.process i).created? input

/-- The peers of every process move by what takes effect on them in the turn. -/
theorem Turn.reconfigured {i : ι} {input : Input}
    (turn : Turn deployment cluster event next i input) (j : ι) :
    (next.process j).node.config = (cluster.process j).node.config ∧
      (next.process j).node.peers = reconfigureAll (cluster.process j).node.config.selfAddr
        (cluster.process j).node.peers
        (if i = j then (cluster.process i).change? input else none).toList := by
  split
  · rename_i acts
    subst acts
    exact Process.reconfigured_step turn.stepped
  · rename_i waits
    rw [turn.others j (Ne.symm waits)]
    exact ⟨rfl, rfl⟩

/-- Nothing but bookkeeping happens in an event. -/
structure Pause (cluster : Cluster ι) (event : Event ι) (next : Cluster ι) : Prop where
  process : next.process = cluster.process
  appends : next.appends = cluster.appends
  installs : next.installs = cluster.installs
  taken : ∀ j, event.taken? cluster j = none
  created : event.created? cluster = none

/-- Without a crash an event is the turn of one process, or a pause. -/
theorem turn_or_pause (steady : event.crashes = false)
    (stepped : deployment.step cluster event = some next) :
    Pause cluster event next ∨ ∃ i input, Turn deployment cluster event next i input := by
  cases event with
  | interrupt action i writes => cases steady
  | crash i => cases steady
  | run action =>
    have external (silent : ∀ j input, action ≠ .internal j input) :
        (Event.run action).input? = none := by
      cases action with
      | internal j input => exact absurd rfl (silent j input)
      | _ => rfl
    cases Deployment.act_effect stepped with
    | bookkeeping process appends installs silent =>
      refine .inl ⟨process, appends, installs, ?_, ?_⟩
      · intro j
        simp [Event.taken?, external silent]
      · simp [Event.created?, external silent]
    | input i input after moved process sent carried source =>
      have own : next.process i = after := by rw [process, Function.update_self]
      refine .inr ⟨i, input, own ▸ moved, ?_, sent, carried, ?_, ?_⟩
      · intro j other
        rw [process, Function.update_of_ne other]
      · intro j
        rcases source with ⟨_, rfl⟩ | ⟨message, silent⟩
        · by_cases same : i = j
          · subst same
            rfl
          · simp [Event.taken?, Event.input?, same]
        · have idle : (cluster.process i).taken? input = none := by
            cases input <;> first | rfl | cases message
          simp [Event.taken?, external silent, idle]
      · rcases source with ⟨_, rfl⟩ | ⟨message, silent⟩
        · rfl
        · have idle : (cluster.process i).created? input = none := by
            cases input <;> first | rfl | cases message
          simp [Event.created?, external silent, idle]

theorem config_of_step (steady : event.crashes = false)
    (stepped : deployment.step cluster event = some next) (p : ι) :
    (next.process p).node.config = (cluster.process p).node.config := by
  rcases turn_or_pause steady stepped with pause | ⟨i, input, turn⟩
  · rw [pause.process]
  · exact (turn.reconfigured p).1

/-- Unless an addition is accepted, every process changes its peers by what it takes
from its log. -/
theorem peers_of_step (steady : event.crashes = false)
    (stepped : deployment.step cluster event = some next)
    (removals : ∀ entry ∈ event.created? cluster, entry.configOp = .remove) (p : ι) :
    (next.process p).node.peers = reconfigureAll (cluster.process p).node.config.selfAddr
      (cluster.process p).node.peers ((event.taken? cluster p).filter (·.isConfig)).toList := by
  rcases turn_or_pause steady stepped with pause | ⟨i, input, turn⟩
  · rw [pause.process, pause.taken]
    rfl
  · rw [turn.created] at removals
    rw [(turn.reconfigured p).2, turn.taken, Process.change?_of_taken removals]
    split <;> rfl

/-- Every log, and every request under way, is in shape. -/
structure Lineage (changes : List LogEntry) (cluster : Cluster ι) : Prop where
  process : ∀ i, (cluster.process i).node.Formed changes
  append : ∀ rpc ∈ cluster.appends, rpc.args.Formed changes

namespace Lineage

variable {changes : List LogEntry}

omit [DecidableEq ι] in
theorem initial : Lineage changes deployment.initial where
  process i := ⟨.new, fun leads => absurd rfl leads⟩
  append rpc member := by cases member

theorem turn {i : ι} {input : Input} (lineage : Lineage changes cluster)
    (turn : Turn deployment cluster event next i input) :
    Lineage (changes ++ (event.created? cluster).toList) next := by
  have grown : changes ⊆ changes ++ (event.created? cluster).toList :=
    List.subset_append_left _ _
  have created : ∀ entry ∈ (cluster.process i).created? input,
      entry ∈ changes ++ (event.created? cluster).toList := by
    intro entry made
    rw [turn.created, Option.mem_def.mp made]
    simp
  have before (j : ι) := (lineage.process j).mono grown
  have acted : (next.process i).node.Formed (changes ++ (event.created? cluster).toList) := by
    refine Process.formed_step (before i) created ?_ turn.stepped
    intro args request
    obtain ⟨rpc, sending, rfl⟩ := turn.carried.append args request
    exact (lineage.append rpc sending).mono grown
  refine ⟨fun j => ?_, fun rpc member => ?_⟩
  · by_cases acts : j = i
    · exact acts ▸ acted
    · rw [turn.others j acts]
      exact before j
  · rcases turn.sent.append rpc member with ⟨old, sending, same⟩ | ⟨peer, term, sending⟩
    · exact same ▸ (lineage.append old sending).mono grown
    · obtain ⟨_, _, replicated⟩ := Process.outgoing_cases sending turn.stepped
      exact acted.replicate _ replicated

theorem step (lineage : Lineage changes cluster) (steady : event.crashes = false)
    (stepped : deployment.step cluster event = some next) :
    Lineage (changes ++ (event.created? cluster).toList) next := by
  rcases turn_or_pause steady stepped with pause | ⟨i, input, turn⟩
  · rw [pause.created, Option.toList_none, List.append_nil]
    exact ⟨pause.process ▸ lineage.process, pause.appends ▸ lineage.append⟩
  · exact lineage.turn turn

/-- A membership change taken from a log was created by somebody, for the index at
which it is taken. -/
theorem taken (lineage : Lineage changes cluster) {i : ι} {entry : LogEntry}
    (taken : event.taken? cluster i = some entry) (config : entry.isConfig = true) :
    entry ∈ changes ∧ entry.index = (cluster.process i).node.lastApplied + 1 := by
  obtain ⟨⟨j, input⟩, _, taking⟩ := Option.bind_eq_some_iff.mp taken
  dsimp only at taking
  split at taking
  · rw [Process.eq_get_of_taken? taking] at config ⊢
    exact (lineage.process i).log.get_config config
  · cases taking

end Lineage

/-- What holds of a run so far: every log is in shape, and the membership changes
applied so far lie within `lastApplied`. -/
structure Chronicle (moves : List (Move (Cluster ι) (Event ι))) (cluster : Cluster ι) : Prop where
  lineage : Lineage (created moves) cluster
  applied : ∀ i, ∀ entry ∈ takenBy i moves, entry.isConfig = true →
    entry ∈ created moves ∧ entry.index ≤ (cluster.process i).node.lastApplied

namespace Chronicle

variable {moves : List (Move (Cluster ι) (Event ι))}

theorem initial : Chronicle [] deployment.initial := ⟨.initial, by simp [takenBy]⟩

theorem lastApplied_le {i j : ι} {input : Input}
    (turn : Turn deployment cluster event next i input) :
    (cluster.process j).node.lastApplied + (event.taken? cluster j).toList.length ≤
      (next.process j).node.lastApplied := by
  rw [turn.taken]
  split
  · rename_i acts
    subst acts
    exact Process.lastApplied_step turn.stepped
  · rename_i waits
    rw [turn.others j (Ne.symm waits)]
    exact Nat.le_refl _

theorem step (chronicle : Chronicle moves cluster) (steady : event.crashes = false)
    (stepped : deployment.step cluster event = some next) :
    Chronicle (moves ++ [⟨cluster, event, next⟩]) next := by
  refine ⟨by rw [created_snoc]; exact chronicle.lineage.step steady stepped, ?_⟩
  intro i entry member config
  have advance : (cluster.process i).node.lastApplied + (event.taken? cluster i).toList.length ≤
      (next.process i).node.lastApplied := by
    rcases turn_or_pause steady stepped with pause | ⟨j, input, turn⟩
    · rw [pause.taken, pause.process]
      exact Nat.le_refl _
    · exact lastApplied_le turn
  rw [created_snoc]
  rw [takenBy_snoc] at member
  rcases List.mem_append.mp member with old | new
  · obtain ⟨known, bound⟩ := chronicle.applied i entry old config
    exact ⟨List.mem_append_left _ known, by omega⟩
  · have taken := Option.mem_toList.mp new
    obtain ⟨known, index⟩ := chronicle.lineage.taken taken config
    rw [Option.mem_def.mp taken, Option.toList_some, List.length_singleton] at advance
    exact ⟨List.mem_append_left _ known, by omega⟩

end Chronicle

end RaftGo
