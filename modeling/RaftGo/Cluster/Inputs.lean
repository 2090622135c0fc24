import RaftGo.Cluster.Lineage

/-! Which process takes which input in an action, messages included. Runs can be
restricted by the inputs a process is given, and an invariant of single processes holds in
every run in which every input keeps it. -/

namespace RaftGo

open Raft KvStore Library

variable {ι : Type}

def Phase.reply? {Reply : Type} : Phase Reply → Option Reply
  | .replied reply => some reply
  | _ => none

/-- The input an action gives to a process, if it can happen. -/
def Action.input? (cluster : Cluster ι) : Action ι → Option (ι × Input)
  | .tick _ => none
  | .internal i input => some (i, input)
  | .startPreVote i => some (i, .startPreVote)
  | .startElection i => some (i, .startElection)
  | .serveVote index _ target => cluster.polls[index]?.map fun poll =>
      (target, .requestVote poll.args)
  | .resumePreVote _ _ => none
  | .becomeCandidate index => cluster.polls[index]?.map fun poll =>
      (poll.caller, .becomeCandidate)
  | .resumeVote index call => cluster.polls[index]?.bind fun poll =>
      poll.calls[call]?.bind fun (_, phase) => phase.reply?.map fun reply =>
        (poll.caller, .voteReply poll.args.term poll.votes poll.majority reply)
  | .serveAppend index target => cluster.appends[index]?.map fun rpc =>
      (target, .appendEntries rpc.args)
  | .resumeAppend index => cluster.appends[index]?.bind fun rpc =>
      rpc.phase.reply?.map fun reply =>
        (rpc.caller, .appendReply rpc.peer rpc.term rpc.args reply)
  | .serveInstall index target saved => cluster.installs[index]?.map fun rpc =>
      (target, .installSnapshot rpc.args saved)
  | .resumeInstall index => cluster.installs[index]?.bind fun rpc =>
      rpc.phase.reply?.map fun reply =>
        (rpc.caller, .installReply rpc.peer rpc.term rpc.args reply)

/-- `permits` restricts the inputs a process may take, given its state. -/
def Event.Feeds (permits : Process → Input → Prop) (cluster : Cluster ι) : Event ι → Prop
  | .run action => ∀ fed ∈ action.input? cluster, permits (cluster.process fed.1) fed.2
  | _ => True

instance decidableFeeds (permits : Process → Input → Prop)
    [∀ process input, Decidable (permits process input)] (cluster : Cluster ι)
    (event : Event ι) : Decidable (event.Feeds permits cluster) := by
  induction event using Event.casesOn with
  | run action =>
    exact inferInstanceAs (Decidable (∀ fed ∈ action.input? cluster,
      permits (cluster.process fed.1) fed.2))
  | interrupt action i writes => exact isTrue trivial
  | crash i => exact isTrue trivial

namespace Deployment

variable [DecidableEq ι] {deployment : Deployment ι} {cluster next : Cluster ι}

/-- What an action does is what its input does to one of the processes. A request that is
handled was under way, and one that is under way afterwards was so before or has been sent
by the process that took the input. -/
theorem act_given {action : Action ι} (acted : deployment.act cluster action = some next) :
    (next.process = cluster.process ∧ next.installs = cluster.installs) ∨
      ∃ i input after, action.input? cluster = some (i, input) ∧
        (cluster.process i).step deployment.codec cluster.clock input = some after ∧
        next.process = Function.update cluster.process i after ∧ Carried cluster input ∧
        Sent deployment cluster next i input := by
  have message {i : ι} {input : Input} {fed : Cluster ι}
      (given : action.input? cluster = some (i, input))
      (feeding : deployment.feed cluster i input = some fed) (kept : next.process = fed.process)
      (carried : Carried cluster input) (sent : Sent deployment cluster next i input) :
      ∃ i input after, action.input? cluster = some (i, input) ∧
        (cluster.process i).step deployment.codec cluster.clock input = some after ∧
        next.process = Function.update cluster.process i after ∧ Carried cluster input ∧
        Sent deployment cluster next i input := by
    obtain ⟨after, stepped, rfl⟩ := feed_cases feeding
    exact ⟨i, input, after, given, stepped, kept, carried, sent⟩
  have silent {input : Input} (append : ∀ args, input ≠ .appendEntries args)
      (install : ∀ args saved, input ≠ .installSnapshot args saved) : Carried cluster input :=
    ⟨fun args same => absurd same (append args), fun args saved same =>
      absurd same (install args saved)⟩
  cases action with
  | tick elapsed =>
    cases acted
    exact .inl ⟨rfl, rfl⟩
  | internal i input =>
    simp only [act] at acted
    split at acted
    · rename_i internal
      exact .inr (message rfl acted rfl (.of_internal internal) (sent_of_feed acted))
    · cases acted
  | startPreVote i =>
    obtain ⟨fed, feeding, ⟨_, rfl⟩ | ⟨_, rfl⟩⟩ := startPreVote_cases acted
    · exact .inr (message rfl feeding rfl (silent (by simp) (by simp)) (sent_of_feed feeding))
    · have sent := sent_of_feed feeding
      exact .inr (message rfl feeding rfl (silent (by simp) (by simp)) ⟨sent.append, sent.install⟩)
  | startElection i =>
    obtain ⟨fed, feeding, rfl⟩ := startElection_cases acted
    have sent := sent_of_feed feeding
    exact .inr (message rfl feeding rfl (silent (by simp) (by simp)) ⟨sent.append, sent.install⟩)
  | serveVote index call target =>
    obtain ⟨poll, fed, found, _, feeding, rfl⟩ := serveVote_cases acted
    have sent := sent_of_feed feeding
    exact .inr (message (by simp [Action.input?, found]) feeding rfl (silent (by simp) (by simp))
      ⟨sent.append, sent.install⟩)
  | resumePreVote index call =>
    obtain ⟨poll, peer, reply, _, _, _, rfl⟩ := resumePreVote_cases acted
    exact .inl ⟨rfl, rfl⟩
  | becomeCandidate index =>
    obtain ⟨poll, fed, found, _, _, _, feeding, rfl⟩ := becomeCandidate_cases acted
    have sent := sent_of_feed feeding
    exact .inr (message (by simp [Action.input?, found]) feeding rfl (silent (by simp) (by simp))
      ⟨sent.append, sent.install⟩)
  | resumeVote index call =>
    obtain ⟨poll, peer, reply, fed, found, calling, _, _, feeding, rfl⟩ := resumeVote_cases acted
    have sent := sent_of_feed feeding
    exact .inr (message (by simp [Action.input?, found, calling, Phase.reply?]) feeding rfl
      (silent (by simp) (by simp)) ⟨sent.append, sent.install⟩)
  | serveAppend index target =>
    obtain ⟨rpc, fed, found, _, _, feeding, rfl⟩ := serveAppend_cases acted
    have member := List.mem_of_getElem? found
    refine .inr (message (by simp [Action.input?, found]) feeding rfl ⟨?_, by simp⟩
      ((sent_of_feed feeding).setAppend member _))
    rintro args ⟨rfl⟩
    exact ⟨rpc, member, rfl⟩
  | resumeAppend index =>
    obtain ⟨rpc, reply, fed, found, replied, _, feeding, rfl⟩ := resumeAppend_cases acted
    exact .inr (message (by simp [Action.input?, found, replied, Phase.reply?]) feeding rfl
      (silent (by simp) (by simp))
      ((sent_of_feed feeding).setAppend (List.mem_of_getElem? found) _))
  | serveInstall index target saved =>
    obtain ⟨rpc, fed, found, _, _, feeding, rfl⟩ := serveInstall_cases acted
    have member := List.mem_of_getElem? found
    refine .inr (message (by simp [Action.input?, found]) feeding rfl ⟨by simp, ?_⟩
      ((sent_of_feed feeding).setInstall member _))
    rintro args saved ⟨rfl⟩
    exact ⟨rpc, member, rfl⟩
  | resumeInstall index =>
    obtain ⟨rpc, reply, fed, found, replied, _, feeding, rfl⟩ := resumeInstall_cases acted
    exact .inr (message (by simp [Action.input?, found, replied, Phase.reply?]) feeding rfl
      (silent (by simp) (by simp))
      ((sent_of_feed feeding).setInstall (List.mem_of_getElem? found) _))

/-- What an action does to the processes is what its input does to one of them. -/
theorem act_input {action : Action ι} (acted : deployment.act cluster action = some next) :
    next.process = cluster.process ∨ ∃ i input after, action.input? cluster = some (i, input) ∧
      (cluster.process i).step deployment.codec cluster.clock input = some after ∧
      next.process = Function.update cluster.process i after := by
  rcases act_given acted with ⟨same, _⟩ | ⟨i, input, after, given, stepped, updated, _⟩
  · exact .inl same
  · exact .inr ⟨i, input, after, given, stepped, updated⟩

/-- What every start of a process establishes and every permitted input keeps holds of
every process in every run. Where no process goes down, only the first start counts. -/
theorem process_invariant {permits : Process → Input → Prop} {allowed : Cluster ι → Event ι → Prop}
    (holds : ι → Process → Prop) (initial : ∀ i, holds i (deployment.startProcess i 0 {}))
    (restarted : ∀ cluster event, allowed cluster event → event.crashes = true →
      ∀ i boots disk, holds i (deployment.startProcess i boots disk))
    (restricts : ∀ cluster event, allowed cluster event → event.Feeds permits cluster)
    (kept : ∀ i now process input after, holds i process → permits process input →
      process.step deployment.codec now input = some after → holds i after)
    {moves : List (Move (Cluster ι) (Event ι))}
    (trace : deployment.system.Trace allowed deployment.initial moves cluster) (i : ι) :
    holds i (cluster.process i) := by
  refine trace.record (fun _ cluster => ∀ i, holds i (cluster.process i)) initial ?_ i
  intro _ cluster event next holding permitted stepped i
  have feeds := restricts cluster event permitted
  have rebooted (crashes : event.crashes = true) (j : ι) (disk : Disk) :
      holds i ((deployment.reboot cluster j disk).process i) := by
    by_cases restarts : i = j
    · subst restarts
      simp only [reboot, Function.update_self]
      exact restarted cluster event permitted crashes _ _ _
    · simp only [reboot, Function.update_of_ne restarts]
      exact holding i
  cases event with
  | run action =>
    rcases act_input stepped with same | ⟨j, input, after, given, moved, updated⟩
    · rw [same]
      exact holding i
    · rw [updated]
      by_cases acts : i = j
      · subst acts
        rw [Function.update_self]
        exact kept i _ _ _ _ (holding i) (feeds _ given) moved
      · rw [Function.update_of_ne acts]
        exact holding i
  | interrupt action j writes =>
    simp only [system, step, Option.bind_eq_bind, Option.bind_eq_some_iff] at stepped
    obtain ⟨_, _, disk, _, built⟩ := stepped
    cases built
    exact rebooted rfl j disk
  | crash j =>
    cases stepped
    exact rebooted rfl j _

end Deployment

end RaftGo
