import RaftGo.Cluster.Contract

/-! When a contract is kept: one obligation for each kind of input, about one
process and one message. From these every step of the cluster, and so every run,
keeps the relation to the ghost state. -/

namespace RaftGo

open Raft KvStore Library Relation

variable {ι : Type}

/-- The input a process takes by itself in an event. -/
def Event.input? : Event ι → Option (ι × Input)
  | .run (.internal i input) => some (i, input)
  | .interrupt (.internal i input) _ _ => some (i, input)
  | _ => none

/-- `permits` restricts which internal inputs a process may take, given the time
and the state of the process. Message deliveries and crashes are always allowed. -/
def Event.Permitted (permits : Nat → Process → Input → Prop) (cluster : Cluster ι)
    (event : Event ι) : Prop :=
  match event.input? with
  | none => True
  | some (i, input) => permits cluster.clock (cluster.process i) input

instance (permits : Nat → Process → Input → Prop)
    [∀ now process input, Decidable (permits now process input)] (cluster : Cluster ι)
    (event : Event ι) : Decidable (event.Permitted permits cluster) :=
  show Decidable (match event.input? with
    | none => True
    | some (i, input) => permits cluster.clock (cluster.process i) input) from
  match event.input? with
  | none => inferInstanceAs (Decidable True)
  | some (i, input) =>
    inferInstanceAs (Decidable (permits cluster.clock (cluster.process i) input))

/-- What is known of the snapshot file whenever `HandleInstallSnapshot` is served:
whether `saveSnapshot` succeeds. -/
def Event.Saves (saves : Bool → Prop) : Event ι → Prop
  | .run (.serveInstall _ _ saved) => saves saved
  | _ => True

theorem Event.saves_any (event : Event ι) : event.Saves fun _ => True := by
  unfold Saves
  split <;> trivial

instance (saves : Bool → Prop) [DecidablePred saves] (event : Event ι) :
    Decidable (event.Saves saves) := by
  cases event with
  | run action =>
    cases action with
    | serveInstall rpc target saved => exact inferInstanceAs (Decidable (saves saved))
    | _ => exact isTrue trivial
  | _ => exact isTrue trivial

namespace Deployment

variable [DecidableEq ι] {deployment : Deployment ι} {cluster next : Cluster ι}

/-- The requests among the inputs come from RPCs of the cluster. -/
structure Carried (cluster : Cluster ι) (input : Input) : Prop where
  append : ∀ args, input = .appendEntries args → ∃ rpc ∈ cluster.appends, rpc.args = args
  install : ∀ args saved, input = .installSnapshot args saved →
    ∃ rpc ∈ cluster.installs, rpc.args = args

omit [DecidableEq ι] in
theorem Carried.of_internal {input : Input} (internal : input.isInternal = true) :
    Carried cluster input := by
  constructor
  · rintro args rfl
    cases internal
  · rintro args saved rfl
    cases internal

/-- The requests under way in the second cluster are those of the first and those
the process `i` sends with an input. -/
structure Sent (deployment : Deployment ι) (cluster next : Cluster ι) (i : ι) (input : Input) :
    Prop where
  append : ∀ rpc ∈ next.appends, (∃ old ∈ cluster.appends, old.args = rpc.args) ∨
    ∃ peer term, .append peer term rpc.args ∈
      (cluster.process i).outgoing deployment.codec cluster.clock input
  install : ∀ rpc ∈ next.installs, (∃ old ∈ cluster.installs, old.args = rpc.args) ∨
    ∃ peer term, .install peer term rpc.args ∈
      (cluster.process i).outgoing deployment.codec cluster.clock input

theorem sent_of_feed {i : ι} {input : Input}
    (fed : deployment.feed cluster i input = some next) : Sent deployment cluster next i input := by
  obtain ⟨after, _, rfl⟩ := feed_cases fed
  constructor
  · intro rpc member
    rcases List.mem_append.mp member with old | new
    · exact .inl ⟨rpc, old, rfl⟩
    · obtain ⟨out, sending, opened⟩ := List.mem_filterMap.mp new
      cases out with
      | append peer term args =>
        cases opened
        exact .inr ⟨peer, term, sending⟩
      | install peer term args => cases opened
  · intro rpc member
    rcases List.mem_append.mp member with old | new
    · exact .inl ⟨rpc, old, rfl⟩
    · obtain ⟨out, sending, opened⟩ := List.mem_filterMap.mp new
      cases out with
      | append peer term args => cases opened
      | install peer term args =>
        cases opened
        exact .inr ⟨peer, term, sending⟩

omit [DecidableEq ι] in
theorem Sent.setAppend {i : ι} {input : Input} {index : Nat} {rpc : AppendRpc ι}
    (sent : Sent deployment cluster next i input) (member : rpc ∈ cluster.appends)
    (phase : Phase AppendEntriesReply) :
    Sent deployment cluster (next.setAppend index (rpc.setPhase phase)) i input where
  append other present := by
    rcases List.mem_or_eq_of_mem_set present with old | rfl
    · exact sent.append other old
    · exact .inl ⟨rpc, member, rfl⟩
  install := sent.install

omit [DecidableEq ι] in
theorem Sent.setInstall {i : ι} {input : Input} {index : Nat} {rpc : InstallRpc ι}
    (sent : Sent deployment cluster next i input) (member : rpc ∈ cluster.installs)
    (phase : Phase InstallSnapshotReply) :
    Sent deployment cluster (next.setInstall index (rpc.setPhase phase)) i input where
  append := sent.append
  install other present := by
    rcases List.mem_or_eq_of_mem_set present with old | rfl
    · exact sent.install other old
    · exact .inl ⟨rpc, member, rfl⟩

/-- What an action does: bookkeeping, or one input of one process. -/
inductive Effect (deployment : Deployment ι) (cluster : Cluster ι) (action : Action ι)
    (next : Cluster ι) : Prop where
  | bookkeeping (process : next.process = cluster.process)
      (appends : next.appends = cluster.appends) (installs : next.installs = cluster.installs)
      (silent : ∀ i input, action ≠ .internal i input)
  | input (i : ι) (input : Input) (after : Process)
      (stepped : (cluster.process i).step deployment.codec cluster.clock input = some after)
      (process : next.process = Function.update cluster.process i after)
      (sent : Sent deployment cluster next i input) (carried : Carried cluster input)
      (source : input.isInternal = true ∧ action = .internal i input ∨
        input.isInternal = false ∧ ∀ j other, action ≠ .internal j other)

theorem act_effect {action : Action ι} (acted : deployment.act cluster action = some next) :
    Effect deployment cluster action next := by
  have message {i : ι} {input : Input} {fed : Cluster ι} (external : input.isInternal = false)
      (feeding : deployment.feed cluster i input = some fed) (kept : next.process = fed.process)
      (sent : Sent deployment cluster next i input) (carried : Carried cluster input)
      (silent : ∀ j other, action ≠ .internal j other) : Effect deployment cluster action next := by
    obtain ⟨after, stepped, rfl⟩ := feed_cases feeding
    exact .input i input after stepped kept sent carried (.inr ⟨external, silent⟩)
  cases action with
  | tick elapsed =>
    cases acted
    exact .bookkeeping rfl rfl rfl (by simp)
  | internal i input =>
    simp only [act] at acted
    split at acted
    · rename_i internal
      have sent := sent_of_feed acted
      obtain ⟨after, stepped, rfl⟩ := feed_cases acted
      exact .input i input after stepped rfl sent (.of_internal internal) (.inl ⟨internal, rfl⟩)
    · cases acted
  | startPreVote i =>
    obtain ⟨fed, feeding, ⟨_, rfl⟩ | ⟨_, rfl⟩⟩ := startPreVote_cases acted
    · exact message rfl feeding rfl (sent_of_feed feeding) ⟨by simp, by simp⟩ (by simp)
    · have sent := sent_of_feed feeding
      exact message rfl feeding rfl ⟨sent.append, sent.install⟩ ⟨by simp, by simp⟩ (by simp)
  | startElection i =>
    obtain ⟨fed, feeding, rfl⟩ := startElection_cases acted
    have sent := sent_of_feed feeding
    exact message rfl feeding rfl ⟨sent.append, sent.install⟩ ⟨by simp, by simp⟩ (by simp)
  | serveVote index call target =>
    obtain ⟨poll, fed, _, _, feeding, rfl⟩ := serveVote_cases acted
    have sent := sent_of_feed feeding
    exact message rfl feeding rfl ⟨sent.append, sent.install⟩ ⟨by simp, by simp⟩ (by simp)
  | resumePreVote index call =>
    obtain ⟨poll, peer, reply, _, _, _, rfl⟩ := resumePreVote_cases acted
    exact .bookkeeping rfl rfl rfl (by simp)
  | becomeCandidate index =>
    obtain ⟨poll, fed, _, _, _, _, feeding, rfl⟩ := becomeCandidate_cases acted
    have sent := sent_of_feed feeding
    exact message rfl feeding rfl ⟨sent.append, sent.install⟩ ⟨by simp, by simp⟩ (by simp)
  | resumeVote index call =>
    obtain ⟨poll, peer, reply, fed, _, _, _, _, feeding, rfl⟩ := resumeVote_cases acted
    have sent := sent_of_feed feeding
    exact message rfl feeding rfl ⟨sent.append, sent.install⟩ ⟨by simp, by simp⟩ (by simp)
  | serveAppend index target =>
    obtain ⟨rpc, fed, found, _, _, feeding, rfl⟩ := serveAppend_cases acted
    have member := List.mem_of_getElem? found
    refine message rfl feeding rfl ((sent_of_feed feeding).setAppend member _) ⟨?_, by simp⟩
      (by simp)
    rintro args ⟨rfl⟩
    exact ⟨rpc, member, rfl⟩
  | resumeAppend index =>
    obtain ⟨rpc, reply, fed, found, _, _, feeding, rfl⟩ := resumeAppend_cases acted
    have member := List.mem_of_getElem? found
    exact message rfl feeding rfl ((sent_of_feed feeding).setAppend member _) ⟨by simp, by simp⟩
      (by simp)
  | serveInstall index target saved =>
    obtain ⟨rpc, fed, found, _, _, feeding, rfl⟩ := serveInstall_cases acted
    have member := List.mem_of_getElem? found
    refine message rfl feeding rfl ((sent_of_feed feeding).setInstall member _) ⟨by simp, ?_⟩
      (by simp)
    rintro args saved ⟨rfl⟩
    exact ⟨rpc, member, rfl⟩
  | resumeInstall index =>
    obtain ⟨rpc, reply, fed, found, _, _, feeding, rfl⟩ := resumeInstall_cases acted
    have member := List.mem_of_getElem? found
    exact message rfl feeding rfl ((sent_of_feed feeding).setInstall member _) ⟨by simp, by simp⟩
      (by simp)

/-- An action changes a process by a single input. -/
theorem act_process {action : Action ι} (acted : deployment.act cluster action = some next) (i : ι) :
    next.process i = cluster.process i ∨
      ∃ input, (cluster.process i).step deployment.codec cluster.clock input =
        some (next.process i) ∧ (input.isInternal = true → action = .internal i input) ∧
        Carried cluster input := by
  cases act_effect acted with
  | bookkeeping process _ _ _ => exact .inl (by rw [process])
  | input j input after stepped process sent carried source =>
    by_cases same : i = j
    · subst same
      refine .inr ⟨input, by rw [process, Function.update_self, stepped], ?_, carried⟩
      intro internal
      rcases source with ⟨_, taken⟩ | ⟨external, _⟩
      · exact taken
      · simp [external] at internal
    · exact .inl (by rw [process, Function.update_of_ne same])

end Deployment

namespace Contract

variable {Ghost : Type} [DecidableEq ι]

/-- The obligations of a contract over an invariant `base` already established. When
`HandleInstallSnapshot` is served, `saves` tells what is known of its file. -/
structure Kept (contract : Contract ι Ghost) (deployment : Deployment ι) (base : Shape ι)
    (permits : Nat → Process → Input → Prop) (saves : Bool → Prop := fun _ => True) : Prop where
  internal : ∀ {ghost i now process input after}, contract.At base ghost i process →
    input.isInternal = true → permits now process input →
    process.step deployment.codec now input = some after →
    contract.Reaches ghost i fun next => (contract.shape next).process i after ∧
      ∀ out ∈ process.outgoing deployment.codec now input,
        (contract.shape next).Sends i process.boots out
  startPreVote : ∀ {ghost i process}, contract.At base ghost i process →
    (contract.shape ghost).process i { process with preVotes := process.preVotes - 1 } ∧
      (contract.shape ghost).poll (.start i process process.node.preVoteArgs)
  startElection : ∀ {ghost i process}, contract.At base ghost i process →
    process.elections ≠ 0 →
    (contract.shape ghost).process i { process with elections := process.elections - 1 } ∧
      (contract.shape ghost).poll (.start i process process.node.voteArgs)
  serveVote : ∀ {ghost i now process poll call}, contract.At base ghost i process →
    base.poll poll → (contract.shape ghost).poll poll →
    poll.calls[call]? = some (deployment.addr i, .requested) →
    contract.Reaches ghost i fun next =>
      (contract.shape next).process i
        (process.withNode (process.node.handleRequestVote now poll.args).1) ∧
      (contract.shape next).poll
        (poll.setPhase call (.replied (process.node.handleRequestVote now poll.args).2))
  resumePreVote : ∀ {ghost poll call peer reply}, contract.sound ghost → base.poll poll →
    (contract.shape ghost).poll poll → poll.args.isPreVote = true →
    poll.calls[call]? = some (peer, .replied reply) →
    (contract.shape ghost).poll ((poll.setPhase call (.resumed reply)).count reply.voteGranted)
  becomeCandidate : ∀ {ghost process poll after now}, base.poll poll →
    contract.At base ghost poll.caller process → (contract.shape ghost).poll poll →
    poll.args.isPreVote = true →
    process.step deployment.codec now .becomeCandidate = some after →
    contract.Reaches ghost poll.caller fun next =>
      (contract.shape next).process poll.caller after ∧
      (contract.shape next).poll { poll with finished := true }
  resumeVote : ∀ {ghost process poll call peer reply now}, base.poll poll →
    contract.At base ghost poll.caller process → (contract.shape ghost).poll poll →
    poll.args.isPreVote = false → poll.boot = process.boots →
    poll.calls[call]? = some (peer, .replied reply) →
    contract.Reaches ghost poll.caller fun next =>
      (contract.shape next).process poll.caller (process.withNode
        (process.node.handleVoteReply now poll.args.term poll.votes poll.majority reply).1) ∧
      (contract.shape next).poll ((poll.setPhase call (.resumed reply)).count
        (process.node.handleVoteReply now poll.args.term poll.votes poll.majority reply).2)
  serveAppend : ∀ {ghost i now process rpc}, contract.At base ghost i process →
    base.append rpc → (contract.shape ghost).append rpc → rpc.phase = .requested →
    deployment.addr i = rpc.peer →
    contract.Reaches ghost i fun next =>
      (contract.shape next).process i
        (process.withNode (process.node.handleAppendEntries now rpc.args).1) ∧
      (contract.shape next).append
        (rpc.setPhase (.replied (process.node.handleAppendEntries now rpc.args).2))
  resumeAppend : ∀ {ghost now process rpc reply}, base.append rpc →
    contract.At base ghost rpc.caller process → (contract.shape ghost).append rpc →
    rpc.phase = .replied reply → rpc.boot = process.boots →
    contract.Reaches ghost rpc.caller fun next =>
      (contract.shape next).process rpc.caller
        (process.withNode (process.node.handleAppendReply now rpc.peer rpc.term rpc.args reply)) ∧
      (contract.shape next).append (rpc.setPhase (.resumed reply))
  serveInstall : ∀ {ghost i process rpc saved}, saves saved → contract.At base ghost i process →
    base.install rpc → (contract.shape ghost).install rpc → rpc.phase = .requested →
    deployment.addr i = rpc.peer →
    contract.Reaches ghost i fun next =>
      (contract.shape next).process i
        (process.withNode (process.node.handleInstallSnapshot rpc.args saved).1) ∧
      (contract.shape next).install
        (rpc.setPhase (.replied (process.node.handleInstallSnapshot rpc.args saved).2))
  resumeInstall : ∀ {ghost process rpc reply}, base.install rpc →
    contract.At base ghost rpc.caller process → (contract.shape ghost).install rpc →
    rpc.phase = .replied reply → rpc.boot = process.boots →
    contract.Reaches ghost rpc.caller fun next =>
      (contract.shape next).process rpc.caller
        (process.withNode (process.node.handleInstallReply rpc.peer rpc.term rpc.args reply)) ∧
      (contract.shape next).install (rpc.setPhase (.resumed reply))
  restart : ∀ {ghost i process}, contract.At base ghost i process →
    (contract.shape ghost).process i
      (deployment.startProcess i (process.boots + 1) process.node.disk)
  interrupt : ∀ {ghost i now process input after disk}, contract.At base ghost i process →
    (input.isInternal = true → permits now process input) →
    (∀ args, input = .appendEntries args → ∃ rpc, base.append rpc ∧
      (contract.shape ghost).append rpc ∧ rpc.args = args) →
    (∀ args saved, input = .installSnapshot args saved → ∃ rpc, base.install rpc ∧
      (contract.shape ghost).install rpc ∧ rpc.args = args) →
    process.step deployment.codec now input = some after →
    disk ∈ process.node.passing after.node →
    contract.Reaches ghost i fun next =>
      (contract.shape next).process i (deployment.startProcess i (process.boots + 1) disk)

/-- Some process moves the ghost state. -/
def Step (contract : Contract ι Ghost) (ghost next : Ghost) : Prop :=
  ∃ i, contract.moves ghost i next

variable {contract : Contract ι Ghost} {deployment : Deployment ι} {base : Shape ι}
  {permits : Nat → Process → Input → Prop} {saves : Bool → Prop} {ghost next : Ghost}
  {cluster after : Cluster ι}

omit [DecidableEq ι] in
theorem Path.steps {i : ι} (path : contract.Path i ghost next) :
    ReflTransGen contract.Step ghost next :=
  path.lift id fun _ _ moved => ⟨i, moved⟩

omit [DecidableEq ι] in
theorem Related.at (related : contract.Related ghost cluster) (known : base.Holds cluster)
    (i : ι) : contract.At base ghost i (cluster.process i) :=
  ⟨related.sound, known.process i, related.holds.process i⟩

/-- An input that sends nothing, together with the message bookkeeping around it. -/
theorem Related.message (goal : Ghost → Prop) {i : ι} {input : Input} {fed : Cluster ι}
    {process : Process} (related : contract.Related ghost cluster)
    (feeding : deployment.feed cluster i input = some fed)
    (stepped : (cluster.process i).step deployment.codec cluster.clock input = some process)
    (silent : (cluster.process i).outgoing deployment.codec cluster.clock input = [])
    (reaches : contract.Reaches ghost i fun next =>
      (contract.shape next).process i process ∧ goal next)
    (noted : ∀ next, (contract.shape next).Holds fed → goal next →
      (contract.shape next).Holds after) :
    ∃ next, ReflTransGen contract.Step ghost next ∧ contract.Related next after := by
  obtain ⟨next, path, own, rest⟩ := reaches
  have relation : contract.Related next fed := by
    refine related.feed feeding path ?_ (by simp [silent])
    intro other reached
    exact Option.some.inj (stepped.symm.trans reached) ▸ own
  exact ⟨next, path.steps, relation.sound, noted next relation.holds rest⟩

theorem Kept.act (kept : contract.Kept deployment base permits saves) (known : base.Holds cluster)
    (related : contract.Related ghost cluster) {action : Action ι}
    (permitted : ∀ i input, action = .internal i input →
      permits cluster.clock (cluster.process i) input)
    (saving : ∀ index target saved, action = .serveInstall index target saved → saves saved)
    (acted : deployment.act cluster action = some after) :
    ∃ next, ReflTransGen contract.Step ghost next ∧ contract.Related next after := by
  cases action with
  | tick elapsed =>
    cases acted
    exact ⟨ghost, .refl, related.sound, related.holds.process, related.holds.poll,
      related.holds.append, related.holds.install⟩
  | internal i input =>
    simp only [Deployment.act] at acted
    split at acted
    · rename_i internal
      obtain ⟨process, stepped, _⟩ := Deployment.feed_cases acted
      obtain ⟨next, path, own, sent⟩ := kept.internal (related.at known i) internal
        (permitted i input rfl) stepped
      refine ⟨next, path.steps, related.feed acted path ?_ sent⟩
      intro other reached
      exact Option.some.inj (stepped.symm.trans reached) ▸ own
    · cases acted
  | startPreVote i =>
    obtain ⟨fed, feeding, built⟩ := Deployment.startPreVote_cases acted
    obtain ⟨process, stepped, _⟩ := Deployment.feed_cases feeding
    have spawned := (Process.step_startPreVote stepped).2
    obtain ⟨own, polling⟩ := kept.startPreVote (related.at known i)
    refine related.message (fun next => (contract.shape next).poll _) feeding stepped rfl
      (.here ⟨spawned ▸ own, polling⟩) ?_
    intro next holds polling
    rcases built with ⟨_, rfl⟩ | ⟨_, rfl⟩
    · exact holds
    · exact holds.addPoll polling
  | startElection i =>
    obtain ⟨fed, feeding, rfl⟩ := Deployment.startElection_cases acted
    obtain ⟨process, stepped, _⟩ := Deployment.feed_cases feeding
    obtain ⟨waiting, spawned⟩ := Process.step_startElection stepped
    obtain ⟨own, polling⟩ := kept.startElection (related.at known i) waiting
    refine related.message (fun next => (contract.shape next).poll _) feeding stepped rfl
      (.here ⟨spawned ▸ own, polling⟩) ?_
    exact fun _ holds polling => holds.addPoll polling
  | serveVote index call target =>
    obtain ⟨poll, fed, found, calling, feeding, rfl⟩ := Deployment.serveVote_cases acted
    have member := List.mem_of_getElem? found
    refine related.message _ feeding rfl rfl
      (kept.serveVote (related.at known target) (known.poll _ member)
        (related.holds.poll _ member) calling) ?_
    exact fun _ holds polling => holds.setPoll index polling
  | resumePreVote index call =>
    obtain ⟨poll, peer, reply, found, calling, probe, rfl⟩ := Deployment.resumePreVote_cases acted
    have member := List.mem_of_getElem? found
    exact ⟨ghost, .refl, related.sound, related.holds.setPoll index (kept.resumePreVote
      related.sound (known.poll _ member) (related.holds.poll _ member) probe calling)⟩
  | becomeCandidate index =>
    obtain ⟨poll, fed, found, probe, _, _, feeding, rfl⟩ := Deployment.becomeCandidate_cases acted
    have member := List.mem_of_getElem? found
    obtain ⟨process, stepped, _⟩ := Deployment.feed_cases feeding
    refine related.message _ feeding stepped rfl
      (kept.becomeCandidate (known.poll _ member) (related.at known poll.caller)
        (related.holds.poll _ member) probe stepped) ?_
    exact fun _ holds polling => holds.setPoll index polling
  | resumeVote index call =>
    obtain ⟨poll, peer, reply, fed, found, calling, real, current, feeding, rfl⟩ :=
      Deployment.resumeVote_cases acted
    have member := List.mem_of_getElem? found
    refine related.message _ feeding rfl rfl
      (kept.resumeVote (known.poll _ member) (related.at known poll.caller)
        (related.holds.poll _ member) real current calling) ?_
    exact fun _ holds polling => holds.setPoll index polling
  | serveAppend index target =>
    obtain ⟨rpc, fed, found, waiting, routed, feeding, rfl⟩ := Deployment.serveAppend_cases acted
    have member := List.mem_of_getElem? found
    refine related.message _ feeding rfl rfl
      (kept.serveAppend (related.at known target) (known.append _ member)
        (related.holds.append _ member) waiting routed) ?_
    exact fun _ holds answered => holds.setAppend index answered
  | resumeAppend index =>
    obtain ⟨rpc, reply, fed, found, replied, current, feeding, rfl⟩ :=
      Deployment.resumeAppend_cases acted
    have member := List.mem_of_getElem? found
    refine related.message _ feeding rfl rfl
      (kept.resumeAppend (known.append _ member) (related.at known rpc.caller)
        (related.holds.append _ member) replied current) ?_
    exact fun _ holds answered => holds.setAppend index answered
  | serveInstall index target saved =>
    obtain ⟨rpc, fed, found, waiting, routed, feeding, rfl⟩ := Deployment.serveInstall_cases acted
    have member := List.mem_of_getElem? found
    refine related.message _ feeding rfl rfl
      (kept.serveInstall (saving _ _ _ rfl) (related.at known target) (known.install _ member)
        (related.holds.install _ member) waiting routed) ?_
    exact fun _ holds answered => holds.setInstall index answered
  | resumeInstall index =>
    obtain ⟨rpc, reply, fed, found, replied, current, feeding, rfl⟩ :=
      Deployment.resumeInstall_cases acted
    have member := List.mem_of_getElem? found
    refine related.message _ feeding rfl rfl
      (kept.resumeInstall (known.install _ member) (related.at known rpc.caller)
        (related.holds.install _ member) replied current) ?_
    exact fun _ holds answered => holds.setInstall index answered

theorem Kept.step (kept : contract.Kept deployment base permits saves) (known : base.Holds cluster)
    (related : contract.Related ghost cluster) {event : Event ι}
    (permitted : event.Permitted permits cluster) (saving : event.Saves saves)
    (stepped : deployment.step cluster event = some after) :
    ∃ next, ReflTransGen contract.Step ghost next ∧ contract.Related next after := by
  cases event with
  | run action =>
    refine kept.act known related ?_ ?_ stepped
    · rintro i input rfl
      exact permitted
    · rintro index target saved rfl
      exact saving
  | crash i =>
    cases stepped
    exact ⟨ghost, .refl, related.reboot .refl (kept.restart (related.at known i))⟩
  | interrupt action i writes =>
    simp only [Deployment.step, Option.bind_eq_bind, Option.bind_eq_some_iff] at stepped
    obtain ⟨reached, acted, disk, found, built⟩ := stepped
    cases built
    have member := List.mem_of_getElem? found
    rcases Deployment.act_process acted i with same | ⟨input, fed, internal, carried⟩
    · simp [same, RaftNode.passing] at member
    · have appends : ∀ args, input = .appendEntries args → ∃ rpc, base.append rpc ∧
          (contract.shape ghost).append rpc ∧ rpc.args = args := by
        intro args request
        obtain ⟨rpc, sending, rfl⟩ := carried.append args request
        exact ⟨rpc, known.append rpc sending, related.holds.append rpc sending, rfl⟩
      have installs : ∀ args saved, input = .installSnapshot args saved → ∃ rpc,
          base.install rpc ∧ (contract.shape ghost).install rpc ∧ rpc.args = args := by
        intro args saved request
        obtain ⟨rpc, sending, rfl⟩ := carried.install args saved request
        exact ⟨rpc, known.install rpc sending, related.holds.install rpc sending, rfl⟩
      obtain ⟨next, path, own⟩ := kept.interrupt (related.at known i)
        (fun inner => by simpa [internal inner, Event.Permitted, Event.input?] using permitted)
        appends installs fed member
      exact ⟨next, path.steps, related.reboot path own⟩

/-- Every permitted run ends in a ghost state related to its last state, in which
everything noted of the states passed through still holds. -/
theorem Kept.run (noted : Cluster ι → Ghost → Prop) {allowed : Cluster ι → Event ι → Prop}
    (kept : contract.Kept deployment base permits saves)
    (admitted : ∀ cluster event, allowed cluster event →
      event.Permitted permits cluster ∧ event.Saves saves)
    (preserved : ∀ cluster event after, base.Holds cluster → event.Permitted permits cluster →
      deployment.step cluster event = some after → base.Holds after)
    (notes : ∀ cluster ghost, base.Holds cluster → contract.Related ghost cluster →
      noted cluster ghost)
    (stable : ∀ cluster ghost next, contract.sound ghost → contract.Step ghost next →
      noted cluster ghost → noted cluster next)
    {moves : List (Move (Cluster ι) (Event ι))} {start : Cluster ι}
    (trace : deployment.system.Trace allowed start moves cluster)
    (known : base.Holds start) (related : contract.Related ghost start) :
    ∃ next, contract.Related next cluster ∧
      ∀ seen ∈ System.visited start moves, noted seen next := by
  suffices simulated : ∃ next, (base.Holds cluster ∧ contract.Related next cluster) ∧
      ∀ seen ∈ System.visited start moves, contract.sound next ∧ noted seen next by
    obtain ⟨next, relation, seen⟩ := simulated
    exact ⟨next, relation.2, fun state member => (seen state member).2⟩
  refine trace.simulate (fun cluster ghost => base.Holds cluster ∧ contract.Related ghost cluster)
    (fun cluster ghost => contract.sound ghost ∧ noted cluster ghost) contract.Step
    ⟨known, related⟩ ?_ ?_ ?_
  · rintro cluster event after ghost ⟨known, related⟩ allowed stepped
    obtain ⟨permitted, saving⟩ := admitted cluster event allowed
    obtain ⟨next, path, relation⟩ := kept.step known related permitted saving stepped
    exact ⟨next, path, preserved _ _ _ known permitted stepped, relation⟩
  · rintro cluster ghost ⟨known, related⟩
    exact ⟨related.sound, notes cluster ghost known related⟩
  · rintro cluster ghost next step ⟨sound, noting⟩
    obtain ⟨i, moved⟩ := id step
    exact ⟨contract.sound_moves sound moved, stable _ _ _ sound step noting⟩

/-- What an accompanying invariant says holds in the end of every state passed through, if
a step keeps it given the ghost state after the step. That ghost state is reached from the
one at the start. -/
theorem Kept.escort (extra : Cluster ι → Ghost → Prop) {allowed : Cluster ι → Event ι → Prop}
    (kept : contract.Kept deployment base permits saves)
    (admitted : ∀ cluster event, allowed cluster event →
      event.Permitted permits cluster ∧ event.Saves saves)
    (preserved : ∀ cluster event after, base.Holds cluster → event.Permitted permits cluster →
      deployment.step cluster event = some after → base.Holds after)
    (stable : ∀ cluster ghost next, contract.sound ghost → contract.Step ghost next →
      extra cluster ghost → extra cluster next)
    (onward : ∀ cluster event after ghost, deployment.step cluster event = some after →
      extra cluster ghost → base.Holds after → contract.Related ghost after → extra after ghost)
    {moves : List (Move (Cluster ι) (Event ι))} {start : Cluster ι}
    (trace : deployment.system.Trace allowed start moves cluster)
    (known : base.Holds start) (related : contract.Related ghost start)
    (holding : extra start ghost) :
    ∃ next, ReflTransGen contract.Step ghost next ∧ base.Holds cluster ∧
      contract.Related next cluster ∧ ∀ seen ∈ System.visited start moves, extra seen next := by
  have carried : ∀ cluster ghost next, contract.sound ghost →
      ReflTransGen contract.Step ghost next → extra cluster ghost →
      contract.sound next ∧ extra cluster next := by
    intro cluster ghost next sound path holds
    induction path with
    | refl => exact ⟨sound, holds⟩
    | tail _ moved ih =>
      obtain ⟨i, step⟩ := id moved
      exact ⟨contract.sound_moves ih.1 step, stable _ _ _ ih.1 moved ih.2⟩
  have simulated := trace.simulate
    (fun cluster next => ReflTransGen contract.Step ghost next ∧ base.Holds cluster ∧
      contract.Related next cluster ∧ extra cluster next)
    (fun cluster next => contract.sound next ∧ extra cluster next) contract.Step
    ⟨.refl, known, related, holding⟩
    (by
      rintro cluster event after ghost ⟨path, known, related, holding⟩ allowed stepped
      obtain ⟨permitted, saving⟩ := admitted cluster event allowed
      obtain ⟨next, last, relation⟩ := kept.step known related permitted saving stepped
      have holds := preserved _ _ _ known permitted stepped
      exact ⟨next, last, path.trans last, holds, relation, onward _ _ _ _ stepped
        (carried _ _ _ related.sound last holding).2 holds relation⟩)
    (fun _ _ state => ⟨state.2.2.1.sound, state.2.2.2⟩)
    (fun _ _ _ moved noting => carried _ _ _ noting.1 (.single moved) noting.2)
  obtain ⟨next, ⟨path, known, related, _⟩, noted⟩ := simulated
  exact ⟨next, path, known, related, fun seen member => (noted seen member).2⟩

end Contract

end RaftGo
