import RaftGo.Cluster.CompactedSafety
import RaftGo.KvStore.Calls

/-! Clients of a cluster that compacts its logs. A call that returned without an error has
its own entry, chosen once and for all, and these entries are in the order of the calls:
one that was made after another had returned stands behind it. -/

namespace RaftGo

open Raft KvStore Library Library.Consensus

namespace KvStore.Process

variable {process after : Process} {codec : Codec} {now : Nat} {input : Input}

theorem boots_step (stepped : process.step codec now input = some after) :
    after.boots = process.boots := by
  cases input with
  | applyLoop branch => cases applyLoop_cases stepped <;> rfl
  | readApplyCh saved =>
    cases readApplyCh_cases stepped with
    | routeEntry index term command result reader holding next =>
      obtain ⟨pending, calls, routed⟩ :=
        routeEntry_eq { process with applied := process.applied + 1 } index term result
      rw [routed]
    | _ => rfl
  | call op =>
    cases stepped
    exact (process.startCall_node codec op).2.1
  | registerCall caller =>
    obtain ⟨_, _, _, rfl⟩ := registerCall_cases stepped
    rfl
  | finishCall caller =>
    obtain ⟨_, _, _, _, _, _, _, rfl⟩ := finishCall_cases stepped
    rfl
  | timeOutCall caller =>
    obtain ⟨_, _, _, rfl⟩ := timeOutCall_cases stepped
    rfl
  | electionTimeout | becomeCandidate | resetTimer =>
    simp only [step] at stepped
    split at stepped <;> cases stepped <;> rfl
  | startPreVote =>
    obtain ⟨_, rfl⟩ := step_startPreVote stepped
    rfl
  | startElection =>
    obtain ⟨_, rfl⟩ := step_startElection stepped
    rfl
  | _ =>
    cases stepped
    rfl

end KvStore.Process

section Steps

variable {ι : Type} [DecidableEq ι] {deployment : Deployment ι} {cluster next : Cluster ι}
  {event : Event ι} {i : ι} {caller : Nat} {call : ClientCall}

theorem Deployment.step_process (stepped : deployment.step cluster event = some next) (i : ι) :
    next.process i = cluster.process i ∨
      (∃ input, (cluster.process i).step deployment.codec cluster.clock input =
        some (next.process i)) ∨
      ∃ disk, next.process i = deployment.startProcess i ((cluster.process i).boots + 1) disk := by
  have rebooted (j : ι) (disk : Disk) (built : deployment.reboot cluster j disk = next) :
      next.process i = cluster.process i ∨
        (∃ input, (cluster.process i).step deployment.codec cluster.clock input =
          some (next.process i)) ∨
        ∃ disk, next.process i =
          deployment.startProcess i ((cluster.process i).boots + 1) disk := by
    subst built
    by_cases same : i = j
    · subst same
      exact .inr (.inr ⟨disk, by simp [reboot]⟩)
    · exact .inl (by simp [reboot, Function.update_of_ne same])
  cases event with
  | run action =>
    rcases Deployment.act_process stepped i with same | ⟨input, fed, _⟩
    · exact .inl same
    · exact .inr (.inl ⟨input, fed⟩)
  | crash j => exact rebooted j _ (Option.some.inj stepped)
  | interrupt action j writes =>
    simp only [Deployment.step, Option.bind_eq_bind, Option.bind_eq_some_iff] at stepped
    obtain ⟨_, _, disk, _, built⟩ := stepped
    exact rebooted j disk (Option.some.inj built)

/-- The leader takes the next index of its term for the call. -/
structure Submits (process : Process) (caller : Nat) (call : ClientCall) : Prop where
  caller : caller = process.calls.length
  leads : process.node.state = .leader
  term : call.term = process.node.currentTerm
  index : call.index = process.node.log.lastIndex + 1

/-- The process had accepted the call already, in the same life. -/
structure Recurs (process after : Process) (caller : Nat) (call : ClientCall) : Prop where
  boots : process.boots = after.boots
  found : ∃ earlier, process.calls[caller]? = some earlier ∧ earlier.index = call.index ∧
    earlier.term = call.term

theorem Deployment.call_cases (stepped : deployment.step cluster event = some next)
    (found : (next.process i).calls[caller]? = some call) (placed : call.index ≠ 0) :
    Recurs (cluster.process i) (next.process i) caller call ∨
      (cluster.process i).boots = (next.process i).boots ∧
        Submits (cluster.process i) caller call := by
  rcases Deployment.step_process stepped i with same | ⟨input, fed⟩ | ⟨disk, started⟩
  · exact .inl ⟨by rw [same], call, same ▸ found, rfl, rfl⟩
  · cases Process.callOrigin_step fed found with
    | refused _ _ _ _ unplaced => exact absurd unplaced placed
    | submitted absent request _ _ index term leads _ =>
      refine .inr ⟨(Process.boots_step fed).symm, ?_, leads, term, index⟩
      have size : (next.process i).calls.length = (cluster.process i).calls.length + 1 := by
        rw [request] at fed
        rcases (cluster.process i).startCall_cases deployment.codec call.op with
          ⟨_, refused⟩ | ⟨_, accepted⟩
        · rw [← Option.some.inj fed, refused, List.length_append]
          rfl
        · rw [← Option.some.inj fed, accepted, List.length_append]
          rfl
      have inside := (List.getElem?_eq_some_iff.mp found).1
      have outside := List.getElem?_eq_none_iff.mp absent
      omega
    | moved earlier present move =>
      obtain ⟨_, index, term⟩ := move.same
      exact .inl ⟨(Process.boots_step fed).symm, earlier, present, index.symm, term.symm⟩
  · rw [started] at found
    simp [Deployment.startProcess, Process.start] at found

theorem exists_submission {allowed : Cluster ι → Event ι → Prop} {start : Cluster ι}
    {moves : List (Move (Cluster ι) (Event ι))}
    (trace : deployment.system.Trace allowed start moves cluster)
    (found : (cluster.process i).calls[caller]? = some call) (placed : call.index ≠ 0) :
    Recurs (start.process i) (cluster.process i) caller call ∨
      ∃ prior point rest, deployment.system.Trace allowed start prior point ∧
        deployment.system.Trace allowed point rest cluster ∧
        Submits (point.process i) caller call := by
  induction trace generalizing call with
  | nil => exact .inl ⟨rfl, call, found, rfl, rfl⟩
  | @snoc moves middle after event earlier permitted taken ih =>
    rcases Deployment.call_cases taken found placed with
      ⟨boots, old, present, index, term⟩ | ⟨_, submits⟩
    · rcases ih present (index ▸ placed) with ⟨boots', first, origin, index', term'⟩ |
        ⟨prior, point, rest, before, after, count, leads, term', index'⟩
      · exact .inl ⟨boots'.trans boots, first, origin, index'.trans index, term'.trans term⟩
      · exact .inr ⟨prior, point, _, before, after.snoc permitted taken, count, leads,
          term.symm.trans term', index.symm.trans index'⟩
    · exact .inr ⟨moves, middle, _, earlier, .snoc .nil permitted taken, submits⟩

end Steps

section Attested

variable {ι : Type} [Fintype ι]

/-- What a node is in every state of a run, beside what the history recalls. -/
structure Steady (node : RaftNode) : Prop where
  backed : node.Backed
  bottom : node.log.snapshotIndex ≤ node.lastApplied
  applied : node.lastApplied ≤ node.commitIndex
  command : ∀ index, (node.log.get index).isConfig = false

/-- What the history recalls of a node and of the calls it has answered. -/
structure Attested (codec : Codec) (history : Consensus.State ι LogEntry) (i : ι)
    (process : Process) : Prop where
  recalled : Recalled history i process.node
  steady : Steady process.node
  answers : Answers codec history process

variable {codec : Codec} {history : Consensus.State ι LogEntry} {process after : Process}
  {now : Nat} {input : Input}

/-- Given that entries to be applied are chosen and those of accepted calls written, all
answers of a process are sound. -/
theorem Answers.step (answers : Answers codec history process) (sound : Consensus.Sound history)
    (known : process.node.lastApplied < process.node.commitIndex →
      Chosen history (process.node.log.get (process.node.lastApplied + 1)).index
        (process.node.log.get (process.node.lastApplied + 1)))
    (written : ∀ op, input = .call op → process.node.state = .leader →
      (history.reign process.node.currentTerm)[process.node.log.lastIndex]? =
        some (process.nextEntry (codec.encodeOp op)))
    (stepped : process.step codec now input = some after) : Answers codec history after := by
  cases kind : input.sidelines with
  | true =>
    have same := Process.sidelined_step kind stepped
    refine ⟨?_, ?_, ?_, ?_, ?_, ?_⟩
    · rw [same.calls]
      exact answers.calls
    · rw [same.pending, same.calls]
      exact answers.pending
    · rw [same.loop]
      exact answers.applying
    · rw [same.loop]
      exact answers.delivering
    · rw [same.applyCh]
      exact answers.channel
    · rw [same.reader]
      exact answers.routing
  | false =>
    cases input with
    | applyLoop branch => exact answers.apply known (Process.applyLoop_cases stepped)
    | readApplyCh saved => exact answers.read sound (Process.readApplyCh_cases stepped)
    | call op =>
      cases stepped
      rcases process.startCall_cases codec op with ⟨_, refused⟩ | ⟨leads, accepted⟩
      · rw [refused]
        exact answers.addCall ⟨.inl rfl, by simp, by simp⟩
      · rw [accepted]
        exact (answers.addCall ⟨.inr (written op rfl leads), by simp, by simp⟩).withNode _
    | registerCall caller => exact answers.registerCall stepped
    | finishCall caller => exact answers.finishCall stepped
    | timeOutCall caller => exact answers.timeOutCall stepped
    | _ => cases kind

variable [DecidableEq ι] {deployment : Deployment ι} {archive : Archive ι} {i : ι}
  {cluster : Cluster ι}

theorem chosen_indexed (related : (condensedContract deployment).Related archive cluster)
    {index : Nat} {entry : LogEntry} (chosen : Chosen archive.history index entry) :
    entry.index = index := by
  have sound : Consensus.Sound archive.history := related.sound
  obtain ⟨holders, majority, held⟩ := sound.chosen_held chosen
  obtain ⟨holder, member, _⟩ := majority.meet majority
  obtain ⟨_, replica, _⟩ := (related.holds.process holder).counterpart
  rw [replica.indexed _ _ (held holder member), Nat.sub_add_cancel chosen.1]

omit [DecidableEq ι] in
theorem Recalled.written {node : RaftNode} (recalled : Recalled history i node)
    (leads : node.state = .leader) {log : Log} {entry : LogEntry}
    (appended : node.log = log.append [entry]) :
    (history.reign node.currentTerm)[log.lastIndex]? = some entry := by
  obtain ⟨_, agrees, _⟩ := recalled.led leads
  rw [appended, Log.lastIndex_append] at agrees
  have above : (log.append [entry]).snapshotIndex < log.lastIndex + 1 := by
    rw [Log.snapshotIndex_append, Log.lastIndex_eq]
    omega
  have last : log.lastIndex + 1 - (log.append [entry]).snapshotIndex - 1 = log.rest.length := by
    rw [Log.snapshotIndex_append, Log.lastIndex_eq]
    omega
  have found := agrees.behind (log.lastIndex + 1) above (Nat.le_refl _)
  rw [Nat.add_sub_cancel, Log.get_of_gt _ above, last] at found
  rw [found]
  simp

omit [DecidableEq ι] in
theorem Condensed.steady {elections : Nat} {node : RaftNode}
    (condensed : Condensed deployment archive i elections node)
    (command : ∀ index, (node.log.get index).isConfig = false) : Steady node where
  backed := condensed.backed
  bottom := condensed.compaction.bottom
  applied := condensed.compaction.applied
  command := command

theorem Attested.step {next : Cluster ι} (attested : Attested codec archive.history i process)
    (related : (condensedContract deployment).Related archive next)
    (recalled : Recalled archive.history i after.node)
    (stepped : process.step codec now input = some after) :
    Answers codec archive.history after := by
  refine attested.answers.step related.sound ?_ ?_ stepped
  · intro behind
    have chosen := (attested.recalled.committed (process.node.lastApplied + 1) (Nat.succ_pos _)
      behind).entry (Nat.lt_succ_of_le attested.steady.bottom)
    rwa [chosen_indexed related chosen]
  · rintro op rfl leads
    cases stepped
    rcases process.startCall_cases codec op with ⟨follows, _⟩ | ⟨_, accepted⟩
    · exact absurd leads follows
    · rw [accepted] at recalled
      exact recalled.written leads rfl

/-- Every run is related to an archive that attests to all states passed through. -/
theorem attested_path (mesh : deployment.FullMesh)
    {moves : List (Move (Cluster ι) (Event ι))} {start : Cluster ι}
    (trace : deployment.system.Trace (fun cluster event => event.Compacting cluster)
      start moves cluster) (known : (plainShape deployment).Holds start)
    (related : (condensedContract deployment).Related archive start)
    (attested : ∀ i, Attested deployment.codec archive.history i (start.process i)) :
    ∃ later, Relation.ReflTransGen (condensedContract deployment).Step archive later ∧
      (plainShape deployment).Holds cluster ∧
      (condensedContract deployment).Related later cluster ∧
      ∀ seen ∈ System.visited start moves, ∀ i,
        Attested deployment.codec later.history i (seen.process i) := by
  refine Contract.Kept.escort
    (fun cluster (archive : Archive ι) => ∀ i,
      Attested deployment.codec archive.history i (cluster.process i))
    (condensed_kept mesh) (fun _ _ permitted => permitted)
    (plain_step fun _ _ _ permitted => permitted.1) ?_ ?_ trace known related attested
  · intro cluster archive later sound moved attested i
    refine ⟨(attested i).recalled.step sound moved, (attested i).steady, ?_⟩
    obtain ⟨_, moved⟩ := moved
    cases moved with
    | write moved => exact (attested i).answers.moves sound moved
    | cover ahead => exact (attested i).answers
  · intro cluster event after archive stepped attested plain related i
    have condensed : Condensed deployment archive i _ _ := related.holds.process i
    have recalled := condensed.recalled related.sound
    refine ⟨recalled, condensed.steady (plain.process i).log.get, ?_⟩
    rcases Deployment.step_process stepped i with same | ⟨input, fed⟩ | ⟨disk, started⟩
    · rw [same]
      exact (attested i).answers
    · exact (attested i).step related recalled fed
    · rw [started]
      exact .start _ _ _ _

theorem attested_initial (i : ι) :
    Attested deployment.codec Archive.initial.history i (deployment.initial.process i) := by
  have related : (condensedContract deployment).Related .initial _ := condensed_initial
  have plain : (plainShape deployment).Holds _ := plain_initial
  have condensed : Condensed deployment .initial i _ _ := related.holds.process i
  exact ⟨condensed.recalled related.sound, condensed.steady (plain.process i).log.get,
    .start _ _ _ _⟩

theorem attested_of_run (mesh : deployment.FullMesh) {moves : List (Move (Cluster ι) (Event ι))}
    (trace : deployment.system.Trace (fun cluster event => event.Compacting cluster)
      deployment.initial moves cluster) :
    ∃ archive, (condensedContract deployment).Related archive cluster ∧
      ∀ seen ∈ System.visited deployment.initial moves, ∀ i,
        Attested deployment.codec archive.history i (seen.process i) := by
  obtain ⟨archive, _, _, related, attested⟩ :=
    attested_path mesh trace plain_initial condensed_initial attested_initial
  exact ⟨archive, related, attested⟩

/-- A leader that is about to take an index for a call has written nothing there. -/
theorem Submits.unwritten {caller : Nat} {call : ClientCall}
    (submits : Submits (cluster.process i) caller call)
    (related : (condensedContract deployment).Related archive cluster) :
    (archive.history.reign call.term).length < call.index := by
  have condensed : Condensed deployment archive i _ _ := related.holds.process i
  rw [submits.term, submits.index, condensed.compaction.lastIndex,
    (condensed.reigns related.sound submits.leads).2]
  exact Nat.lt_succ_self _

/-- Acknowledged writes respect real time: a write that was called after another had
returned without an error gets an index behind it, whichever nodes the two were called on
and whatever compactions, elections and crashes lie between. -/
theorem acknowledged_in_real_time (mesh : deployment.FullMesh)
    {before after : List (Move (Cluster ι) (Event ι))} {middle : Cluster ι}
    (first : deployment.system.Trace (fun cluster event => event.Compacting cluster)
      deployment.initial before middle)
    (second : deployment.system.Trace (fun cluster event => event.Compacting cluster)
      middle after cluster)
    {i j : ι} {early late : ClientCall} {caller : Nat} {value value' : String}
    (done : early ∈ (middle.process i).calls) (returned : early.state = .returned (.ok value))
    (found : (cluster.process j).calls[caller]? = some late)
    (returned' : late.state = .returned (.ok value'))
    (unmade : (middle.process j).boots = (cluster.process j).boots →
      (middle.process j).calls.length ≤ caller) :
    early.index < late.index := by
  obtain ⟨number, lookup⟩ := List.mem_iff_getElem?.mp done
  obtain ⟨archive, _, known, related, attested⟩ :=
    attested_path mesh first plain_initial condensed_initial attested_initial
  have chosen := ((attested middle first.mem_visited i).answers.calls number early lookup).returned
    value returned
  have here := attested middle first.mem_visited
  have placed : late.index ≠ 0 := by
    obtain ⟨_, _, _, _, attested⟩ := attested_path mesh second known related here
    exact Nat.ne_of_gt (((attested cluster second.mem_visited j).answers.calls caller late
      found).returned value' returned').1
  rcases exists_submission second found placed with ⟨boots, old, present, _⟩ |
    ⟨prior, point, rest, past, future, submits⟩
  · have inside := (List.getElem?_eq_some_iff.mp present).1
    exact absurd (unmade boots) (Nat.not_le.mpr inside)
  -- the three histories: when the first call has returned, when the second is submitted, and
  -- when that has returned too
  obtain ⟨archive', path, known', related', attested'⟩ := attested_path mesh past known related here
  obtain ⟨archive'', path', _, related'', attested''⟩ := attested_path mesh future known' related'
    (attested' point past.mem_visited)
  have chosen' := ((attested'' cluster future.mem_visited j).answers.calls caller late
    found).returned value' returned'
  exact Sound.chosen_order related.sound related''.sound (Archive.evolves_path path).1
    (Archive.evolves_path path').1 chosen chosen' (submits.unwritten related')

/-- The first write is answered, and node 1 compacts it away. -/
def answeredAndCompacted : List (Event (Fin 3)) :=
  firstElection ++ firstWrite ++ firstAnswer ++
    List.replicate 2 (.run (.internal node1 (.readApplyCh true)))

/-- Node 3 succeeds node 1, which takes the next write from it, applies both and answers. -/
def answeredBySuccessor : List (Event (Fin 3)) := successorElection ++ [
  .run (.internal node3 (.call setOp)),
  .run (.internal node3 (.registerCall 0)),
  .run (.serveAppend 2 node1),
  .run (.resumeAppend 2)] ++
  List.replicate 7 (.run (.internal node3 (.applyLoop .commit))) ++
  List.replicate 6 (.run (.internal node3 (.readApplyCh true))) ++
  [.run (.internal node3 (.finishCall 0))]

theorem acknowledged_in_real_time_eager :
    ∃ before middle after cluster early late,
      eager.system.Trace (fun cluster event => event.Compacting cluster)
        eager.initial before middle ∧
      eager.system.Trace (fun cluster event => event.Compacting cluster) middle after cluster ∧
      early ∈ (middle.process 0).calls ∧ early.acknowledged = true ∧
      (middle.process 0).node.log.snapshotIndex = 1 ∧
      (cluster.process 2).calls[0]? = some late ∧ late.acknowledged = true ∧
      early.index < late.index := by
  obtain ⟨before, middle, after, cluster, first, second, checked⟩ := eager.system.exists_traces
    (fun cluster event => event.Compacting cluster) eager.initial answeredAndCompacted
    answeredBySuccessor
    (fun middle cluster => ((middle.process 0).calls.any fun call => call.acknowledged) &&
      ((cluster.process 2).calls[0]?.any fun call => call.acknowledged) &&
      decide ((middle.process 0).node.log.snapshotIndex = 1 ∧ (middle.process 2).calls.length = 0))
    (by decide +kernel)
  obtain ⟨⟨one, two⟩, three⟩ := (Bool.and_eq_true_iff.mp checked).imp_left Bool.and_eq_true_iff.mp
  obtain ⟨compacted, none⟩ := of_decide_eq_true three
  obtain ⟨early, member, done⟩ := List.any_eq_true.mp one
  obtain ⟨late, found, done'⟩ := Option.any_eq_true _ _ |>.mp two
  obtain ⟨value, returned⟩ := ClientCall.returned_of_acknowledged done
  obtain ⟨value', returned'⟩ := ClientCall.returned_of_acknowledged done'
  exact ⟨before, middle, after, cluster, early, late, first, second, member, done, compacted, found,
    done', acknowledged_in_real_time eager_mesh first second member returned found returned'
      fun _ => none.le⟩

/-- A process has accepted a call in one of these states, for an index and a term. -/
def Accepted (states : List (Cluster ι)) (i : ι) (boot caller index term : Nat) : Prop :=
  ∃ seen ∈ states, (seen.process i).boots = boot ∧ ∃ call,
    (seen.process i).calls[caller]? = some call ∧ call.index = index ∧ call.term = term

omit [Fintype ι] in
theorem Accepted.snoc_cases {moves : List (Move (Cluster ι) (Event ι))} {start next : Cluster ι}
    {event : Event ι} {i : ι} {boot caller index term : Nat}
    (member : cluster ∈ System.visited start moves)
    (accepted : Accepted (System.visited start (moves ++ [⟨cluster, event, next⟩])) i boot caller
      index term) (placed : index ≠ 0) (stepped : deployment.step cluster event = some next) :
    Accepted (System.visited start moves) i boot caller index term ∨
      ∃ call, call.index = index ∧ call.term = term ∧ Submits (cluster.process i) caller call ∧
        (cluster.process i).boots = boot := by
  obtain ⟨seen, visited, life, call, found, rfl, rfl⟩ := accepted
  rw [System.visited, List.map_append, ← List.cons_append] at visited
  rcases List.mem_append.mp visited with old | new
  · exact .inl ⟨seen, old, life, call, found, rfl, rfl⟩
  · cases List.mem_singleton.mp new
    rcases Deployment.call_cases stepped found placed with ⟨boots, earlier⟩ | ⟨boots, submits⟩
    · exact .inl ⟨cluster, member, boots.trans life, earlier⟩
    · exact .inr ⟨call, rfl, rfl, submits, boots.trans life⟩

/-- No two calls are accepted for the same index and term. -/
theorem accepted_apart (mesh : deployment.FullMesh) {moves : List (Move (Cluster ι) (Event ι))}
    (trace : deployment.system.Trace (fun cluster event => event.Compacting cluster)
      deployment.initial moves cluster) {i j : ι} {boot boot' caller caller' index term : Nat}
    (one : Accepted (System.visited deployment.initial moves) i boot caller index term)
    (two : Accepted (System.visited deployment.initial moves) j boot' caller' index term)
    (placed : index ≠ 0) : i = j ∧ boot = boot' ∧ caller = caller' := by
  induction trace generalizing i j boot boot' caller caller' index term with
  | nil =>
    obtain ⟨seen, member, _, call, found, _⟩ := one
    cases List.mem_singleton.mp member
    simp [Deployment.initial, Deployment.startProcess, Process.start] at found
  | @snoc moves cluster next event earlier permitted taken ih =>
    obtain ⟨archive, related, attested⟩ := attested_of_run mesh earlier
    -- what was accepted before is written, and a leader takes the index behind that
    have apart {i j : ι} {boot caller caller' index term : Nat} {call : ClientCall}
        (old : Accepted (System.visited deployment.initial moves) i boot caller index term)
        (placed : index ≠ 0) (at' : call.index = index) (in' : call.term = term)
        (new : Submits (cluster.process j) caller' call) : False := by
      obtain ⟨seen, member, _, other, found, rfl, rfl⟩ := old
      rcases ((attested seen member i).answers.calls _ other found).written with none | written
      · exact placed none
      · have inside := (List.getElem?_eq_some_iff.mp written).1
        have unwritten := new.unwritten related
        rw [at', in'] at unwritten
        omega
    rcases one.snoc_cases earlier.mem_visited placed taken with old | ⟨call, at', in', new, life⟩
    · rcases two.snoc_cases earlier.mem_visited placed taken with old' | ⟨call, at', in', new, _⟩
      · exact ih old old' placed
      · exact absurd new (apart old placed at' in')
    · rcases two.snoc_cases earlier.mem_visited placed taken with old' |
        ⟨call', at'', in'', new', life'⟩
      · exact absurd new (apart old' placed at' in')
      · obtain ⟨leads, _⟩ := (attested cluster earlier.mem_visited i).recalled.led new.leads
        obtain ⟨leads', _⟩ := (attested cluster earlier.mem_visited j).recalled.led new'.leads
        rw [← new.term, in'] at leads
        rw [← new'.term, in'', leads] at leads'
        cases leads'
        exact ⟨rfl, life.symm.trans life', new.caller.trans new'.caller.symm⟩

/-- Every acknowledged write has an entry of its own: calls that returned without an error
and have the same index, in whichever states of a run, are one call of one process in one
of its lives. -/
theorem acknowledged_once (mesh : deployment.FullMesh) {moves : List (Move (Cluster ι) (Event ι))}
    (trace : deployment.system.Trace (fun cluster event => event.Compacting cluster)
      deployment.initial moves cluster)
    {one two : Cluster ι} (first : one ∈ System.visited deployment.initial moves)
    (second : two ∈ System.visited deployment.initial moves) {i j : ι} {caller other : Nat}
    {call call' : ClientCall} (found : (one.process i).calls[caller]? = some call)
    (found' : (two.process j).calls[other]? = some call') {value value' : String}
    (returned : call.state = .returned (.ok value))
    (returned' : call'.state = .returned (.ok value')) (same : call.index = call'.index) :
    i = j ∧ (one.process i).boots = (two.process j).boots ∧ caller = other := by
  obtain ⟨archive, related, attested⟩ := attested_of_run mesh trace
  have chosen := ((attested one first i).answers.calls _ call found).returned value returned
  have chosen' := ((attested two second j).answers.calls _ call' found').returned value' returned'
  have entry : call.entry deployment.codec = call'.entry deployment.codec :=
    Sound.chosen_unique related.sound chosen (same ▸ chosen')
  have term : call.term = call'.term := congrArg LogEntry.term entry
  exact accepted_apart mesh trace ⟨one, first, rfl, call, found, rfl, rfl⟩
    ⟨two, second, rfl, call', found', same.symm, term.symm⟩ (Nat.ne_of_gt chosen.1)

/-- The call node 1 has answered is the same one later, when it does not lead any more. -/
theorem acknowledged_once_eager :
    ∃ moves cluster one call call', eager.system.Trace
        (fun cluster event => event.Compacting cluster) eager.initial moves cluster ∧
      one ∈ System.visited eager.initial moves ∧ (one.process 0).node.state = .leader ∧
      (cluster.process 0).node.state = .follower ∧
      (one.process 0).calls[0]? = some call ∧ (cluster.process 0).calls[0]? = some call' ∧
      call.acknowledged = true ∧ call'.acknowledged = true ∧ call.index = call'.index ∧
      (one.process 0).boots = (cluster.process 0).boots := by
  obtain ⟨before, middle, after, cluster, first, second, checked⟩ := eager.system.exists_traces
    (fun cluster event => event.Compacting cluster) eager.initial answeredAndCompacted
    answeredBySuccessor
    (fun middle cluster =>
      ((middle.process 0).calls[0]?.any fun call : ClientCall =>
        (cluster.process 0).calls[0]?.any fun call' : ClientCall =>
          call.acknowledged && call'.acknowledged && decide (call.index = call'.index)) &&
      decide ((middle.process 0).node.state = .leader ∧ (cluster.process 0).node.state = .follower))
    (by decide +kernel)
  obtain ⟨calls, states⟩ := Bool.and_eq_true_iff.mp checked
  obtain ⟨leads, follows⟩ := of_decide_eq_true states
  obtain ⟨call, found, rest⟩ := Option.any_eq_true _ _ |>.mp calls
  obtain ⟨call', found', rest⟩ := Option.any_eq_true _ _ |>.mp rest
  simp only [Bool.and_eq_true, decide_eq_true_eq] at rest
  obtain ⟨⟨done, done'⟩, same⟩ := rest
  obtain ⟨value, returned⟩ := ClientCall.returned_of_acknowledged done
  obtain ⟨value', returned'⟩ := ClientCall.returned_of_acknowledged done'
  have trace := first.append second
  have member : middle ∈ System.visited eager.initial (before ++ after) := by
    rw [System.visited, List.map_append, ← List.cons_append]
    exact List.mem_append_left _ first.mem_visited
  exact ⟨before ++ after, cluster, middle, call, call', trace, member, leads, follows, found,
    found', done, done', same, (acknowledged_once eager_mesh trace member trace.mem_visited found
      found' returned returned' same).2.1⟩

end Attested

end RaftGo
