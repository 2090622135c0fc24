import RaftGo.Cluster.Simulation
import RaftGo.KvStore.Progress
import RaftGo.Raft.Plain

/-! Clusters in which `AddPeer` and `RemovePeer` are never called: every node
keeps the identity and the peers of its configuration. -/

namespace RaftGo

open Raft KvStore Library

/-- Inputs other than membership changes. -/
def KvStore.Input.keepsMembership : Input → Bool
  | .addPeer _ | .removePeer _ => false
  | _ => true

namespace KvStore.Process

variable {codec : Codec} {now : Nat} {process after : Process} {cfg : Config} {input : Input}

/-- Only signals and the progress of the apply loop differ. -/
def Idles (node after : RaftNode) : Prop :=
  ∃ notify signal beat applied, after = { node with
    snapshotNotifyC := notify
    commitNotifyC := signal
    heartbeatC := beat
    lastApplied := applied }

theorem Idles.refl (node : RaftNode) : Idles node node := ⟨_, _, _, _, rfl⟩

theorem applyLoop_idles (plain : process.node.Plain cfg)
    (moved : ApplyTransition codec now process after) :
    Idles process.node after.node ∧ after.boots = process.boots ∧
      after.elections = process.elections := by
  cases moved with
  | configure locked behind config => simp [plain.log.get] at config
  | _ => exact ⟨⟨_, _, _, _, rfl⟩, rfl, rfl⟩

/-- What an internal input does to the node of a plain process. -/
inductive NodeEffect (process : Process) (codec : Codec) (now : Nat) : Input → RaftNode → Prop where
  | idle {input : Input} {node : RaftNode} (idles : Idles process.node node)
      (silent : process.outgoing codec now input = []) : NodeEffect process codec now input node
  | heartbeat : NodeEffect process codec now .heartbeat (process.node.heartbeatTick now).1
  | submit (op : Op) :
      NodeEffect process codec now (.call op) (process.node.submit (codec.encodeOp op)).1
  | takeSnapshot (data : Bytes) (saved : Bool) (holding : process.reader = .take data) :
      NodeEffect process codec now (.readApplyCh saved) (process.node.takeSnapshot data saved)

theorem node_effect (plain : process.node.Plain cfg) (internal : input.isInternal = true)
    (fixed : input.keepsMembership = true) (stepped : process.step codec now input = some after) :
    NodeEffect process codec now input after.node ∧ after.boots = process.boots ∧
      after.elections = process.elections := by
  cases input with
  | electionTimeout =>
    simp only [step] at stepped
    split at stepped <;> cases stepped <;> exact ⟨.idle (.refl _) rfl, rfl, rfl⟩
  | heartbeat =>
    cases stepped
    exact ⟨.heartbeat, rfl, rfl⟩
  | resetTimer =>
    simp only [step] at stepped
    split at stepped
    · cases stepped
      exact ⟨.idle ⟨_, _, _, _, rfl⟩ rfl, rfl, rfl⟩
    · cases stepped
  | applyLoop branch =>
    obtain ⟨idles, frame⟩ := applyLoop_idles plain (applyLoop_cases stepped)
    exact ⟨.idle idles rfl, frame⟩
  | readApplyCh saved =>
    cases readApplyCh_cases stepped with
    | take data holding => exact ⟨.takeSnapshot data saved holding, rfl, rfl⟩
    | routeEntry index term command result reader holding next =>
      obtain ⟨node, boots, elections⟩ := routeEntry_frame
        { process with applied := process.applied + 1 } index term result
      refine ⟨.idle ?_ rfl, boots, elections⟩
      simp only [node]
      exact .refl _
    | _ => exact ⟨.idle (.refl _) rfl, rfl, rfl⟩
  | call op =>
    cases stepped
    obtain ⟨node, frame⟩ := startCall_node process codec op
    exact ⟨node ▸ .submit op, frame⟩
  | registerCall caller =>
    obtain ⟨call, _, _, rfl⟩ := registerCall_cases stepped
    exact ⟨.idle (.refl _) rfl, rfl, rfl⟩
  | finishCall caller =>
    obtain ⟨call, result, outcome, _, _, _, _, rfl⟩ := finishCall_cases stepped
    exact ⟨.idle (.refl _) rfl, rfl, rfl⟩
  | timeOutCall caller =>
    obtain ⟨call, _, _, rfl⟩ := timeOutCall_cases stepped
    exact ⟨.idle (.refl _) rfl, rfl, rfl⟩
  | addPeer rpcAddr => cases fixed
  | removePeer rpcAddr => cases fixed
  | _ => cases internal

theorem NodeEffect.plain {node : RaftNode} (plain : process.node.Plain cfg)
    (effect : NodeEffect process codec now input node) : node.Plain cfg := by
  cases effect with
  | idle idles silent =>
    obtain ⟨_, _, _, _, rfl⟩ := idles
    exact { plain with }
  | heartbeat => exact plain.heartbeatTick now
  | submit op => exact plain.submit _
  | takeSnapshot data saved holding => exact plain.takeSnapshot data saved

end KvStore.Process

variable {ι : Type} (deployment : Deployment ι)

def plainShape : Shape ι where
  process i process := process.node.Plain (deployment.config i)
  poll poll := poll.calls.map Prod.fst = (deployment.config poll.caller).peers ∧
    poll.args.candidateID = (deployment.config poll.caller).id
  append rpc := PlainEntries rpc.args.entries
  install _ := True

def plainContract : Contract ι Unit where
  shape _ := plainShape deployment
  moves _ _ _ := False
  sound _ := True
  sound_moves _ moved := moved.elim
  process_moves _ moved := moved.elim
  poll_moves _ moved := moved.elim
  append_moves _ moved := moved.elim
  install_moves _ moved := moved.elim

variable {deployment}

theorem Raft.RaftNode.Plain.sends {node : RaftNode} {cfg : Config} (plain : node.Plain cfg)
    (i : ι) (boot : Nat) : ∀ out ∈ node.replicate, (plainShape deployment).Sends i boot out := by
  intro out member
  obtain ⟨peer, _, rfl⟩ := List.mem_map.mp member
  unfold RaftNode.replicateTo
  split
  · trivial
  · exact plain.log.slice _ _

theorem plain_kept {permits : Nat → Process → Input → Prop}
    (fixed : ∀ now process input, permits now process input → input.keepsMembership = true) :
    (plainContract deployment).Kept deployment (.any ι) permits where
  internal at' internal permitted stepped := by
    have keeps := fixed _ _ _ permitted
    obtain ⟨effect, _⟩ := Process.node_effect at'.process internal keeps stepped
    have plain := effect.plain at'.process
    refine .here ⟨plain, ?_⟩
    intro out sending
    exact plain.sends _ _ out (Process.outgoing_cases sending stepped).2.2
  startPreVote at' := by
    refine ⟨at'.process, ?_, at'.process.id⟩
    simpa [Poll.start, Function.comp_def] using at'.process.peers
  startElection at' _ := by
    refine ⟨at'.process, ?_, at'.process.id⟩
    simpa [Poll.start, Function.comp_def] using at'.process.peers
  serveVote at' _ polling _ :=
    .here ⟨at'.process.handleRequestVote _ _, by simpa using polling.1, polling.2⟩
  resumePreVote _ _ polling _ _ := ⟨by simpa using polling.1, polling.2⟩
  becomeCandidate _ at' polling _ stepped := by
    refine .here ⟨?_, polling⟩
    simp only [Process.step] at stepped
    split at stepped <;> cases stepped
    · exact at'.process.becomeCandidate
    · exact at'.process
  resumeVote _ at' polling _ _ _ :=
    .here ⟨at'.process.handleVoteReply .., by simpa using polling.1, polling.2⟩
  serveAppend at' _ carried _ _ := .here ⟨at'.process.handleAppendEntries _ carried, carried⟩
  resumeAppend _ at' carried _ _ := .here ⟨at'.process.handleAppendReply .., carried⟩
  serveInstall _ at' _ _ _ _ := .here ⟨at'.process.handleInstallSnapshot .., trivial⟩
  resumeInstall _ at' _ _ _ := .here ⟨at'.process.handleInstallReply .., trivial⟩
  restart at' := RaftNode.Plain.boot at'.process.disk
  interrupt at' _ _ _ stepped member := by
    obtain ⟨torn, _⟩ := Process.torn_step stepped member
    refine .here (RaftNode.Plain.boot ?_)
    intro state written
    rcases torn with same | ⟨term, _, stepped⟩
    · exact at'.process.disk state (same ▸ written)
    · exact (at'.process.becomeFollower term).disk state (stepped ▸ written)

theorem plain_initial : (plainShape deployment).Holds deployment.initial where
  process i := by
    have empty : Disk.Plain {} := by simp [Disk.Plain]
    exact (RaftNode.Plain.boot empty : (boot (deployment.config i) {}).Plain _)
  poll _ member := by cases member
  append _ member := by cases member
  install _ member := by cases member

/-- Without membership changes every step keeps the cluster plain. -/
theorem plain_step [DecidableEq ι] {permits : Nat → Process → Input → Prop}
    (fixed : ∀ now process input, permits now process input → input.keepsMembership = true)
    (cluster : Cluster ι) (event : Event ι) (after : Cluster ι)
    (plain : (plainShape deployment).Holds cluster) (permitted : event.Permitted permits cluster)
    (stepped : deployment.step cluster event = some after) :
    (plainShape deployment).Holds after := by
  have related : (plainContract deployment).Related () cluster := ⟨trivial, plain⟩
  obtain ⟨_, _, relation⟩ := (plain_kept fixed).step (Shape.any_holds cluster) related permitted
    event.saves_any stepped
  exact relation.holds

end RaftGo
