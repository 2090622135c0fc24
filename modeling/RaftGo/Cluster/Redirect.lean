import RaftGo.Cluster.Leadership
import RaftGo.KvStore.Http

/-! Redirects. A node that does not lead sends the client to the one it takes for its leader.
That one was elected in the term of the node; if it does not lead any more, then either it
knows no leader or it has moved on to a later term. So a client that follows redirects comes
to later and later terms and does not go round in circles. -/

namespace RaftGo

open Raft KvStore Library

namespace Raft.RaftNode

variable {name : String} {node after : RaftNode}

/-- Only a node that leads takes the name for that of its leader. -/
def Owns (name : String) (node : RaftNode) : Prop := node.leaderID = name → node.state = .leader

namespace Owns

theorem forgets (inhabited : name ≠ "") (forgotten : after.leaderID = "") : after.Owns name :=
  fun own => absurd (own.symm.trans forgotten) inhabited

theorem other {leaderID : String} (foreign : leaderID ≠ name) (told : after.leaderID = leaderID) :
    after.Owns name :=
  fun own => absurd (told.symm.trans own) foreign

theorem frame (owns : node.Owns name) (leaderID : after.leaderID = node.leaderID)
    (state : after.state = node.state) : after.Owns name :=
  fun own => state.trans (owns (leaderID.symm.trans own))

theorem stepDown (owns : node.Owns name) (inhabited : name ≠ "") (term : Nat) :
    (node.stepDown term).Owns name := by
  rcases node.stepDown_cases term with ⟨_, same⟩ | ⟨_, stepped⟩
  · rw [same]
    exact owns
  · rw [stepped]
    exact forgets inhabited rfl

theorem handleRequestVote (owns : node.Owns name) (inhabited : name ≠ "") (now : Nat)
    (args : RequestVoteArgs) : (node.handleRequestVote now args).1.Owns name := by
  rcases node.handleRequestVote_cases now args with ⟨⟨term, same⟩, _⟩ | ⟨_, _, _, _, granted⟩
  · rw [same]
    exact owns.stepDown inhabited term
  · rw [granted]
    exact (owns.stepDown inhabited args.term).frame rfl rfl

theorem handleVoteReply (owns : node.Owns name) (inhabited : name ≠ "")
    (now term votes majority : Nat) (reply : RequestVoteReply) :
    (node.handleVoteReply now term votes majority reply).1.Owns name := by
  rcases node.handleVoteReply_cases now term votes majority reply with
    ⟨⟨seen, same⟩, _⟩ | ⟨_, _, _, _, won⟩
  · rw [same]
    exact owns.stepDown inhabited seen
  · rw [won]
    exact fun _ => rfl

/-- A request of another leader. -/
theorem handleAppendEntries (owns : node.Owns name) (now : Nat) {args : AppendEntriesArgs}
    (foreign : args.leaderID ≠ name) : (node.handleAppendEntries now args).1.Owns name := by
  rcases node.handleAppendEntries_cases now args with ⟨_, same, _⟩ |
    ⟨_, ⟨same, _⟩ | ⟨_, accepted⟩⟩
  · rw [same]
    exact owns
  · rw [same]
    exact other foreign rfl
  · obtain ⟨_, _, built⟩ :=
      ((node.observeLeader args.term).contacted now args.leaderID).acceptEntries_eq args
    rw [accepted, built]
    exact other foreign rfl

theorem handleInstallSnapshot (owns : node.Owns name) (inhabited : name ≠ "")
    {args : InstallSnapshotArgs} (foreign : args.leaderID ≠ name) (saved : Bool) :
    (node.handleInstallSnapshot args saved).1.Owns name := by
  obtain ⟨relieved, before, outcome⟩ := node.handleInstallSnapshot_cases args saved
  have believed : relieved.Owns name := by
    cases before with
    | stale => exact owns.stepDown inhabited args.term
    | current reached => exact other foreign rfl
  rcases outcome with same | ⟨_, installed⟩
  · rw [same]
    exact believed
  · rw [installed]
    exact believed.frame rfl rfl

theorem handleAppendReply (owns : node.Owns name) (inhabited : name ≠ "") (now : Nat)
    (peer : String) (term : Nat) (args : AppendEntriesArgs) (reply : AppendEntriesReply) :
    (node.handleAppendReply now peer term args reply).Owns name := by
  rcases node.handleAppendReply_cases now peer term args reply with ⟨seen, same⟩ |
    ⟨_, _, recorded⟩
  · rw [same]
    exact owns.stepDown inhabited seen
  · obtain ⟨_, _, _, _, _, built⟩ := node.recordReply_eq now peer args reply
    rw [recorded, built]
    exact owns.frame rfl rfl

theorem handleInstallReply (owns : node.Owns name) (inhabited : name ≠ "") (peer : String)
    (term : Nat) (args : InstallSnapshotArgs) (reply : InstallSnapshotReply) :
    (node.handleInstallReply peer term args reply).Owns name := by
  rcases node.handleInstallReply_cases peer term args reply with ⟨seen, same⟩ |
    ⟨_, _, advanced⟩
  · rw [same]
    exact owns.stepDown inhabited seen
  · obtain ⟨_, _, built⟩ := node.advanceMatch_eq peer args.lastIncludedIndex
    rw [advanced, built]
    exact owns.frame rfl rfl

theorem heartbeatTick (owns : node.Owns name) (inhabited : name ≠ "") (now : Nat) :
    (node.heartbeatTick now).1.Owns name := by
  unfold RaftNode.heartbeatTick checkQuorum
  split
  · split
    · exact owns.frame rfl rfl
    · split
      · exact forgets inhabited rfl
      · exact owns.frame rfl rfl
  · exact owns

end Owns

end Raft.RaftNode

/-- What a process with fixed members does by itself. -/
theorem KvStore.Process.owns_internal {codec : Codec} {now : Nat} {process after : Process}
    {input : Input} {cfg : Config} {name : String} (owns : process.node.Owns name)
    (inhabited : name ≠ "") (plain : process.node.Plain cfg) (internal : input.isInternal = true)
    (fixed : input.keepsMembership = true) (stepped : process.step codec now input = some after) :
    after.node.Owns name := by
  have effect := (node_effect plain internal fixed stepped).1
  generalize after.node = node at effect ⊢
  cases effect with
  | idle idles silent =>
    obtain ⟨_, _, _, _, rfl⟩ := idles
    exact owns.frame rfl rfl
  | heartbeat => exact owns.heartbeatTick inhabited now
  | submit op =>
    unfold RaftNode.submit
    split
    · exact owns
    · exact owns.frame rfl rfl
  | takeSnapshot data saved holding =>
    rcases process.node.takeSnapshot_cases data saved with same | ⟨_, _, taken⟩
    · rw [same]
      exact owns
    · rw [taken]
      exact owns.frame rfl rfl

section Naming

variable {ι : Type} (deployment : Deployment ι)

/-- Nodes name themselves only while they lead, and requests name their sender. -/
def namingShape : Shape ι where
  process i process := process.node.Owns (deployment.config i).id
  poll _ := True
  append rpc := rpc.args.leaderID = (deployment.config rpc.caller).id ∧
    rpc.peer ∈ (deployment.config rpc.caller).peers
  install rpc := rpc.args.leaderID = (deployment.config rpc.caller).id ∧
    rpc.peer ∈ (deployment.config rpc.caller).peers

def namingContract : Contract ι Unit where
  shape _ := namingShape deployment
  moves _ _ _ := False
  sound _ := True
  sound_moves _ moved := moved.elim
  process_moves _ moved := moved.elim
  poll_moves _ moved := moved.elim
  append_moves _ moved := moved.elim
  install_moves _ moved := moved.elim

variable {deployment}

theorem Raft.RaftNode.Plain.named {node : RaftNode} {i : ι}
    (plain : node.Plain (deployment.config i)) (boot : Nat) : ∀ out ∈ node.replicate, (namingShape deployment).Sends i boot out := by
  intro out member
  obtain ⟨peer, listed, rfl⟩ := List.mem_map.mp member
  rw [plain.peers] at listed
  unfold RaftNode.replicateTo
  split
  · exact ⟨plain.id, listed⟩
  · exact ⟨plain.id, listed⟩

/-- A request that reaches a node names another one. -/
theorem Deployment.FullMesh.foreign (mesh : deployment.FullMesh) {i caller : ι} {peer : String}
    (listed : peer ∈ (deployment.config caller).peers) (routed : deployment.addr i = peer) :
    (deployment.config caller).id ≠ (deployment.config i).id := by
  intro same
  obtain ⟨j, other, found⟩ := (mesh.mem_peers caller peer).mp listed
  have self := mesh.id_injective caller i same
  exact other ((mesh.addr_injective j i (found.trans routed.symm)).trans self.symm)

theorem naming_kept [DecidableEq ι] (mesh : deployment.FullMesh)
    {permits : Nat → Process → Input → Prop}
    (fixed : ∀ now process input, permits now process input → input.keepsMembership = true) :
    (namingContract deployment).Kept deployment (plainShape deployment) permits where
  internal {_ i _ _ _ _} at' internal permitted stepped := by
    have keeps := fixed _ _ _ permitted
    have effect := (Process.node_effect at'.base internal keeps stepped).1
    refine .here ⟨Process.owns_internal at'.process (mesh.id_nonempty i) at'.base internal keeps
      stepped, ?_⟩
    intro out sending
    exact (effect.plain at'.base).named _ out (Process.outgoing_cases sending stepped).2.2
  startPreVote at' := ⟨at'.process, trivial⟩
  startElection at' _ := ⟨at'.process, trivial⟩
  serveVote at' _ _ _ :=
    .here ⟨RaftNode.Owns.handleRequestVote at'.process (mesh.id_nonempty _) _ _, trivial⟩
  resumePreVote _ _ _ _ _ := trivial
  becomeCandidate _ at' _ _ stepped := by
    refine .here ⟨?_, trivial⟩
    simp only [Process.step] at stepped
    split at stepped <;> cases stepped
    · exact .forgets (mesh.id_nonempty _) rfl
    · exact at'.process
  resumeVote _ at' _ _ _ _ :=
    .here ⟨RaftNode.Owns.handleVoteReply at'.process (mesh.id_nonempty _) _ _ _ _ _, trivial⟩
  serveAppend at' _ named _ routed := by
    have foreign := mesh.foreign named.2 routed
    rw [← named.1] at foreign
    exact .here ⟨RaftNode.Owns.handleAppendEntries at'.process _ foreign, named⟩
  resumeAppend _ at' named _ _ :=
    .here ⟨RaftNode.Owns.handleAppendReply at'.process (mesh.id_nonempty _) _ _ _ _ _, named⟩
  serveInstall _ at' _ named _ routed := by
    have foreign := mesh.foreign named.2 routed
    rw [← named.1] at foreign
    exact .here ⟨RaftNode.Owns.handleInstallSnapshot at'.process (mesh.id_nonempty _) foreign _,
      named⟩
  resumeInstall _ at' named _ _ :=
    .here ⟨RaftNode.Owns.handleInstallReply at'.process (mesh.id_nonempty _) _ _ _ _, named⟩
  restart {_ i process} _ := by
    obtain ⟨_, _, booted⟩ := boot_eq (deployment.config i) process.node.disk
    exact .forgets (mesh.id_nonempty i) (congrArg RaftNode.leaderID booted)
  interrupt {_ i _ _ _ _ disk} _ _ _ _ _ _ := by
    obtain ⟨_, _, booted⟩ := boot_eq (deployment.config i) disk
    exact .here (.forgets (mesh.id_nonempty i) (congrArg RaftNode.leaderID booted))

theorem naming_initial (mesh : deployment.FullMesh) :
    (namingContract deployment).Related () deployment.initial where
  sound := trivial
  holds := ⟨fun i => .forgets (mesh.id_nonempty i) rfl, fun _ _ => trivial,
    by simp [Deployment.initial], by simp [Deployment.initial]⟩

end Naming

section Terms

variable {ι : Type} [Fintype ι] [DecidableEq ι] {deployment : Deployment ι}
  {moves : List (Move (Cluster ι) (Event ι))} {cluster next : Cluster ι} {event : Event ι}

/-- A step of the cluster moves every node as a step of its own would, also when it is a
crash. -/
theorem standing_of_step (mesh : deployment.FullMesh)
    (trace : deployment.system.Trace
      (fun cluster event => event.Permitted LeadersHearQuorum cluster)
      deployment.initial moves cluster)
    (permitted : event.Permitted LeadersHearQuorum cluster)
    (stepped : deployment.step cluster event = some next) (i : ι) :
    (cluster.process i).node.Standing (next.process i).node := by
  cases crashes : event.crashes with
  | false =>
    rcases turn_or_pause crashes stepped with pause | ⟨j, input, turn⟩
    · rw [pause.process]
      exact .keeps rfl rfl
    · by_cases acts : i = j
      · subst acts
        exact Process.standing_step turn.stepped
      · rw [turn.others i acts]
        exact .keeps rfl rfl
  | true =>
    have known : (plainShape deployment).Holds cluster :=
      trace.invariant plain_initial (plain_step fun _ _ _ permitted => permitted.1)
    obtain ⟨ghost, related, _⟩ := Contract.Kept.run (fun _ _ => True) (ballot_kept mesh)
      (fun _ event permitted => ⟨permitted, event.saves_any⟩)
      (plain_step fun _ _ _ permitted => permitted.1) (fun _ _ _ _ => trivial)
      (fun _ _ _ _ _ noted => noted) trace plain_initial ballot_initial
    obtain ⟨ghost', path, related'⟩ :=
      (ballot_kept mesh).step known related permitted event.saves_any stepped
    obtain ⟨j, disk, rfl, _⟩ := crash_cases crashes stepped
    by_cases acts : i = j
    · subst acts
      refine .yields ?_ ?_
      · obtain ⟨_, _, booted⟩ := boot_eq (deployment.config i) disk
        simp [Deployment.reboot, Deployment.startProcess, Process.start, booted, newRaftNode]
      · rw [← (related.holds.process i).term, ← (related'.holds.process i).term]
        clear related related'
        induction path with
        | refl => exact Nat.le_refl _
        | tail _ moved ih =>
          obtain ⟨_, moved⟩ := moved
          exact ih.trans (moved.term_le i)
    · rw [show (deployment.reboot cluster j disk).process i = cluster.process i from
        Function.update_of_ne acts _ _]
      exact .keeps rfl rfl

/-- The node has led the term: it leads it still, or is a follower or in a later term. -/
def Raft.RaftNode.Past (term : Nat) (node : RaftNode) : Prop :=
  term < node.currentTerm ∨ node.currentTerm = term ∧ node.state ≠ .candidate

/-- The node will not lead the term any more. -/
def Raft.RaftNode.Deposed (term : Nat) (node : RaftNode) : Prop :=
  term < node.currentTerm ∨ node.currentTerm = term ∧ node.state = .follower

omit [Fintype ι] [DecidableEq ι] in
theorem Raft.RaftNode.Standing.past {node after : RaftNode} {term : Nat}
    (standing : node.Standing after) (past : node.Past term) : after.Past term := by
  have later := standing.currentTerm_le
  rcases past with above | ⟨same, stays⟩
  · exact .inl (by omega)
  cases standing with
  | keeps state currentTerm => exact .inr ⟨currentTerm.trans same, state ▸ stays⟩
  | yields state reached =>
    rcases Nat.lt_or_ge term after.currentTerm with above | below
    · exact .inl above
    · exact .inr ⟨by omega, by simp [state]⟩
  | stands state currentTerm => exact .inl (by omega)
  | wins stood state currentTerm => exact absurd stood stays

omit [Fintype ι] [DecidableEq ι] in
theorem Raft.RaftNode.Standing.deposed {node after : RaftNode} {term : Nat}
    (standing : node.Standing after) (deposed : node.Deposed term) : after.Deposed term := by
  have later := standing.currentTerm_le
  rcases deposed with above | ⟨same, follows⟩
  · exact .inl (by omega)
  cases standing with
  | keeps state currentTerm => exact .inr ⟨currentTerm.trans same, state.trans follows⟩
  | yields state reached =>
    rcases Nat.lt_or_ge term after.currentTerm with above | below
    · exact .inl above
    · exact .inr ⟨by omega, state⟩
  | stands state currentTerm => exact .inl (by omega)
  | wins stood state currentTerm => simp [follows] at stood

omit [Fintype ι] [DecidableEq ι] in
theorem Raft.RaftNode.Past.deposed {node : RaftNode} {term : Nat} (past : node.Past term)
    (resigned : node.state ≠ .leader) : node.Deposed term := by
  refine past.imp_right fun ⟨same, stays⟩ => ⟨same, ?_⟩
  cases role : node.state with
  | follower => rfl
  | candidate => exact absurd role stays
  | leader => exact absurd role resigned

/-- Whoever was elected has the term behind it. -/
theorem past_of_elects (mesh : deployment.FullMesh)
    (trace : deployment.system.Trace
      (fun cluster event => event.Permitted LeadersHearQuorum cluster)
      deployment.initial moves cluster)
    {i : ι} {term : Nat} {won : Move (Cluster ι) (Event ι)} (member : won ∈ moves)
    (elects : Elects i term won) : (cluster.process i).node.Past term := by
  induction trace with
  | nil => cases member
  | snoc earlier permitted taken ih =>
    rcases List.mem_append.mp member with old | new
    · exact (standing_of_step mesh earlier permitted taken i).past (ih old)
    · cases List.mem_singleton.mp new
      exact .inr ⟨elects.2.2, fun stands => by cases elects.2.1.symm.trans stands⟩

/-- A term a node will not lead any more, it will not lead later on. -/
theorem deposed_later (mesh : deployment.FullMesh)
    (trace : deployment.system.Trace
      (fun cluster event => event.Permitted LeadersHearQuorum cluster)
      deployment.initial moves cluster)
    {i : ι} {term count : Nat} {seen : Cluster ι}
    (found : (System.visited deployment.initial moves)[count]? = some seen)
    (deposed : (seen.process i).node.Deposed term) : (cluster.process i).node.Deposed term :=
  trace.ascends (fun _ cluster => (cluster.process i).node)
    (fun node after => node.Deposed term → after.Deposed term) (fun _ => id)
    (fun _ _ _ first second => second ∘ first)
    (fun _ _ _ _ earlier permitted taken =>
      (standing_of_step mesh earlier permitted taken i).deposed) found deposed

end Terms

/-- One request of a client: the node it goes to, and when in the run the handler reads the
state of the node and when its leader. -/
structure Hop (ι : Type) where
  node : ι
  stateAt : Nat
  leaderAt : Nat

namespace Hop

open Http

variable {ι : Type} (states : List (Cluster ι)) (hop : Hop ι)

/-- Where the client is sent, if it is. -/
def redirected? (addrs : ι → Table String) (route : Route) (request : Http.Request) : Option String := do
  let first ← states[hop.stateAt]?
  let second ← states[hop.leaderAt]?
  (route.handle (addrs hop.node) (first.process hop.node).node.state
    (second.process hop.node).node.leaderID request).redirected?

/-- The term of the node when its leader was read. -/
def term : Nat := (states[hop.leaderAt]?).elim 0 fun cluster =>
  (cluster.process hop.node).node.currentTerm

end Hop

/-- Every address a node has for another one is that of the node with the name; no two nodes
listen at the same. -/
structure Deployment.Directory {ι : Type} (deployment : Deployment ι) (httpAddr : ι → String)
    (addrs : ι → Table String) : Prop where
  named : ∀ i name addr, addrs i name = some addr → ∃ j, (deployment.config j).id = name ∧
    httpAddr j = addr
  distinct : Function.Injective httpAddr

section Following

open Http

variable {ι : Type} {deployment : Deployment ι} {httpAddr : ι → String}
  {addrs : ι → Table String} {route : Route} {request : Http.Request} {hop later : Hop ι}

theorem Hop.redirected_cases {states : List (Cluster ι)} {target : String}
    (redirected : hop.redirected? states addrs route request = some target) :
    ∃ first second, states[hop.stateAt]? = some first ∧ states[hop.leaderAt]? = some second ∧
      (first.process hop.node).node.state ≠ .leader ∧
      (second.process hop.node).node.leaderID ≠ "" ∧ ∃ addr,
        addrs hop.node (second.process hop.node).node.leaderID = some addr ∧
        target = "http://" ++ addr ++ request.requestURI := by
  simp only [Hop.redirected?, Option.bind_eq_bind, Option.bind_eq_some_iff] at redirected
  obtain ⟨first, read, second, read', sent⟩ := redirected
  exact ⟨first, second, read, read', route.redirected sent⟩

theorem Deployment.Directory.leader (directory : deployment.Directory httpAddr addrs) {i j : ι}
    {name addr : String} (listed : addrs i name = some addr)
    (target : "http://" ++ httpAddr j ++ request.requestURI =
      "http://" ++ addr ++ request.requestURI) : (deployment.config j).id = name := by
  obtain ⟨k, named, found⟩ := directory.named i name addr listed
  have same : httpAddr j = httpAddr k := by
    rw [found]
    simpa [String.ext_iff] using target
  rw [directory.distinct same, named]

variable [Fintype ι] [DecidableEq ι] {moves : List (Move (Cluster ι) (Event ι))}
  {cluster : Cluster ι}

omit [Fintype ι] in
theorem recognised_of_run
    (trace : deployment.system.Trace
      (fun cluster event => event.Permitted LeadersHearQuorum cluster)
      deployment.initial moves cluster) : Recognised deployment moves cluster :=
  trace.record (Recognised deployment) .initial fun _ _ _ _ recognised _ stepped =>
    recognised.step stepped

omit [Fintype ι] in
theorem owns_of_run (mesh : deployment.FullMesh)
    (trace : deployment.system.Trace
      (fun cluster event => event.Permitted LeadersHearQuorum cluster)
      deployment.initial moves cluster) (i : ι) :
    (cluster.process i).node.Owns (deployment.config i).id := by
  obtain ⟨_, related, _⟩ := Contract.Kept.run (fun _ _ => True)
    (naming_kept mesh fun _ _ _ permitted => permitted.1)
    (fun _ event permitted => ⟨permitted, event.saves_any⟩)
    (plain_step fun _ _ _ permitted => permitted.1) (fun _ _ _ _ => trivial)
    (fun _ _ _ _ _ noted => noted) trace plain_initial (naming_initial mesh)
  exact related.holds.process i

/-- A client that is sent on to a node, and by that node once more, has come to a later
term. -/
theorem Hop.term_lt (mesh : deployment.FullMesh)
    (directory : deployment.Directory httpAddr addrs)
    (trace : deployment.system.Trace
      (fun cluster event => event.Permitted LeadersHearQuorum cluster)
      deployment.initial moves cluster)
    (followed : hop.redirected? (System.visited deployment.initial moves) addrs route request =
      some ("http://" ++ httpAddr later.node ++ request.requestURI))
    (order : hop.leaderAt ≤ later.stateAt) (order' : later.stateAt ≤ later.leaderAt)
    {target : String}
    (again : later.redirected? (System.visited deployment.initial moves) addrs route request =
      some target) :
    hop.term (System.visited deployment.initial moves) <
      later.term (System.visited deployment.initial moves) := by
  obtain ⟨_, known, _, read, _, named, addr, listed, sent⟩ := Hop.redirected_cases followed
  obtain ⟨resigned, last, read', read'', follows, named', _⟩ := Hop.redirected_cases again
  rw [Hop.term, Hop.term, read, read'', Option.elim_some, Option.elim_some]
  -- the node the client is sent to was elected in the term of the first one
  obtain ⟨j, own, won, member, elects⟩ := (recognised_of_run (trace.take read)).known _ named
  have same : j = later.node :=
    mesh.id_injective _ _ (own.trans (directory.leader listed sent).symm)
  subst same
  have early {count : Nat} (reached : hop.leaderAt ≤ count) : won ∈ moves.take count :=
    List.take_subset_take_left moves reached member
  -- when it answers, it will not lead that term any more
  have past := past_of_elects mesh (trace.take read') (early order) elects
  have deposed := deposed_later mesh (trace.take read'')
    (System.getElem?_visited_take read' order') (past.deposed follows)
  rcases deposed with above | ⟨current, follower⟩
  · exact above
  -- in the same term it could only name itself
  obtain ⟨k, own', won', member', elects'⟩ := (recognised_of_run (trace.take read'')).known _ named'
  obtain ⟨leader, agrees⟩ := leaders_of_run mesh (trace.take read'')
  have led := agrees _ (System.mem_visited_of_move (early (order.trans order'))) _ elects.2.1
  have led' := agrees _ (System.mem_visited_of_move member') k elects'.2.1
  rw [elects.2.2] at led
  rw [elects'.2.2, current] at led'
  have self := Option.some.inj (led.symm.trans led')
  have leads := owns_of_run mesh (trace.take read'') later.node (by rw [← own', ← self])
  cases leads.symm.trans follower

/-- A client follows redirects: each of the nodes sends it to the next, and the last one sends
it on as well. -/
structure Followed (states : List (Cluster ι)) (httpAddr : ι → String) (addrs : ι → Table String)
    (route : Route) (request : Http.Request) (hops : List (Hop ι)) : Prop where
  reads : ∀ hop ∈ hops, hop.stateAt ≤ hop.leaderAt
  redirected : ∀ hop ∈ hops, (hop.redirected? states addrs route request).isSome = true
  chained : hops.IsChain fun hop later => hop.leaderAt ≤ later.stateAt ∧
    hop.redirected? states addrs route request =
      some ("http://" ++ httpAddr later.node ++ request.requestURI)

/-- However the cluster moves on meanwhile, redirects take a client to later and later terms.
In a cluster that does not move they never return to a node, so that there are no more of
them than nodes. -/
theorem redirects_climb (mesh : deployment.FullMesh)
    (directory : deployment.Directory httpAddr addrs)
    (trace : deployment.system.Trace
      (fun cluster event => event.Permitted LeadersHearQuorum cluster)
      deployment.initial moves cluster)
    {hops : List (Hop ι)} (followed : Followed (System.visited deployment.initial moves) httpAddr
      addrs route request hops) :
    (hops.map (Hop.term (System.visited deployment.initial moves))).Pairwise (· < ·) ∧
    ∀ time, (∀ hop ∈ hops, hop.leaderAt = time) → hops.length ≤ Fintype.card ι := by
  have climbs : hops.IsChain fun hop later =>
      hop.term (System.visited deployment.initial moves) <
        later.term (System.visited deployment.initial moves) := by
    refine followed.chained.imp_of_mem_imp fun hop later _ member link => ?_
    obtain ⟨target, again⟩ := Option.isSome_iff_exists.mp (followed.redirected later member)
    exact Hop.term_lt mesh directory trace link.2 link.1 (followed.reads later member) again
  have ordered : (hops.map (Hop.term (System.visited deployment.initial moves))).Pairwise (· < ·) :=
    List.isChain_iff_pairwise.mp ((List.isChain_map _).mpr climbs)
  refine ⟨ordered, fun time frozen => ?_⟩
  -- at one time the term of a hop is that of its node
  have distinct : (hops.map Hop.node).Nodup := by
    refine List.pairwise_map.mpr ((List.pairwise_map.mp ordered).imp_of_mem ?_)
    intro hop later member member' less same
    rw [Hop.term, Hop.term, frozen hop member, frozen later member', same] at less
    exact Nat.lt_irrefl _ less
  simpa using distinct.length_le_card

end Following

/-- Where the bootstrap nodes listen for clients. -/
def composeHTTPAddr : Fin 3 → String
  | 0 => "localhost:8081"
  | 1 => "localhost:8082"
  | 2 => "localhost:8083"

/-- `PEER_HTTP_ADDRS`, the same for all of them. -/
def composeHTTPAddrs (_ : Fin 3) (name : String) : Option String :=
  if name = "node1" then some "localhost:8081"
  else if name = "node2" then some "localhost:8082"
  else if name = "node3" then some "localhost:8083"
  else none

theorem compose_directory : bootstrap.Directory composeHTTPAddr composeHTTPAddrs where
  named i name addr listed := by
    unfold composeHTTPAddrs at listed
    split at listed
    · exact ⟨0, by simp [*, bootstrap, composeConfig, composeId], Option.some.inj listed⟩
    · split at listed
      · exact ⟨1, by simp [*, bootstrap, composeConfig, composeId], Option.some.inj listed⟩
      · split at listed
        · exact ⟨2, by simp [*, bootstrap, composeConfig, composeId], Option.some.inj listed⟩
        · cases listed
  distinct := by
    intro i j
    fin_cases i <;> fin_cases j <;> simp [composeHTTPAddr]

/-- Node 3 replaces node 1, which votes for it and hears from it. -/
def leaderReplaced : List (Event (Fin 3)) := [
  .run (.tick (500 * millisecond)),
  .run (.internal node3 .electionTimeout),
  .run (.startPreVote node3),
  .run (.serveVote 2 0 node1),
  .run (.resumePreVote 2 0),
  .run (.becomeCandidate 2),
  .run (.startElection node3),
  .run (.serveVote 3 0 node1),
  .run (.resumeVote 3 0),
  .run (.internal node3 .heartbeat),
  .run (.serveAppend 2 node1)]

/-- Node 2 has not heard of it and sends the client to node 1, which sends it to node 3. -/
theorem redirects_climb_bootstrap :
    ∃ moves cluster, bootstrap.system.Trace
        (fun cluster event => event.Permitted LeadersHearQuorum cluster)
        bootstrap.initial moves cluster ∧
      Followed (System.visited bootstrap.initial moves) composeHTTPAddr composeHTTPAddrs .keys
        { method := .put, path := "/keys/a", requestURI := "/keys/a", body := "1" }
        [⟨1, moves.length, moves.length⟩, ⟨0, moves.length, moves.length⟩] ∧
      Hop.term (System.visited bootstrap.initial moves) ⟨1, moves.length, moves.length⟩ <
        Hop.term (System.visited bootstrap.initial moves) ⟨0, moves.length, moves.length⟩ := by
  obtain ⟨moves, cluster, trace, checked⟩ := bootstrap.system.exists_trace
    (fun cluster event => event.Permitted LeadersHearQuorum cluster) bootstrap.initial
    (firstElection ++ heartbeatHeard ++ leaderReplaced)
    (fun moves _ => decide (
      Hop.redirected? (System.visited bootstrap.initial moves) ⟨1, moves.length, moves.length⟩
        composeHTTPAddrs .keys
        { method := .put, path := "/keys/a", requestURI := "/keys/a", body := "1" } =
          some "http://localhost:8081/keys/a" ∧
      Hop.redirected? (System.visited bootstrap.initial moves) ⟨0, moves.length, moves.length⟩
        composeHTTPAddrs .keys
        { method := .put, path := "/keys/a", requestURI := "/keys/a", body := "1" } =
          some "http://localhost:8083/keys/a")) (by decide +kernel)
  obtain ⟨first, second⟩ := of_decide_eq_true checked
  have followed : Followed (System.visited bootstrap.initial moves) composeHTTPAddr
      composeHTTPAddrs .keys
      { method := .put, path := "/keys/a", requestURI := "/keys/a", body := "1" }
      [⟨1, moves.length, moves.length⟩, ⟨0, moves.length, moves.length⟩] := by
    refine ⟨by simp, by simp [first, second], ?_⟩
    simp [first, composeHTTPAddr]
  have climbs := (redirects_climb bootstrap_mesh compose_directory trace followed).1
  exact ⟨moves, cluster, trace, followed, by simpa using climbs⟩

end RaftGo
