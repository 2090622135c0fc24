import RaftGo.Cluster.Election
import RaftGo.Raft.Whole

/-! What ties the nodes of a cluster without snapshots, and the messages between
them, to the replicated log of `Library.Consensus`: the log of a node is its log
there, a poll carries the log its candidate stood with, and an `AppendEntries`
carries the end of a part of the reign of its term. -/

namespace RaftGo

open Raft KvStore Library Library.Consensus

variable {ι : Type} (deployment : Deployment ι)

/-- An election that can no longer be won by its caller's standing: the term is
led already, or the caller never stood in it and cannot any more. -/
def Moot (ghost : Consensus.State ι LogEntry) (term : Nat) (caller : ι) : Prop :=
  ghost.Led term ∨ ghost.slate term caller = none ∧ term ≤ ghost.term caller

/-- A node agrees with its part of the history; `elections` counts the goroutines
of `startElection` that have not read the node yet. -/
structure Replica [Fintype ι] (ghost : Consensus.State ι LogEntry) (i : ι) (elections : Nat)
    (node : RaftNode) : Prop where
  voting : Voting deployment ghost.toState i node
  log : node.log = .whole (ghost.log i)
  indexed : Indexed (ghost.log i)
  stored : node.Stored
  snapshot : node.disk.snapshot = none
  settled : Settled ghost i node.commitIndex
  stands : node.state = .candidate → ghost.slate node.currentTerm i = some (ghost.log i) ∧
    ghost.leader node.currentTerm ≠ some i
  /-- `matchIndex` never exceeds what the peer has acknowledged in this term. -/
  progress : node.state = .leader → ∀ j, j ≠ i →
    node.matchIndex.read (deployment.addr j) ≤ ghost.acked node.currentTerm j
  own : node.state = .leader → (ghost.log i).length ≤ ghost.acked node.currentTerm i
  spawned : elections ≠ 0 → node.state = .candidate ∨ Moot ghost node.currentTerm i

/-- A poll tells the log its caller stood with, and each vote granted was an
endorsement, unless the poll is moot. -/
structure Canvass (ghost : Consensus.State ι LogEntry) (poll : Poll ι) : Prop where
  honest : Honest deployment ghost.toState poll
  standing : (∃ log, ghost.slate poll.args.term poll.caller = some log ∧
      poll.args.lastLogIndex = log.length ∧ poll.args.lastLogTerm = lastStamp log) ∨
    Moot ghost poll.args.term poll.caller
  support : ∀ peer phase, (peer, phase) ∈ poll.calls → phase.granted = true →
    ∀ j, deployment.addr j = peer → (∃ log, ghost.endorsed poll.args.term poll.caller j log) ∨
      Moot ghost poll.args.term poll.caller

/-- The request carries the end of the log, from the entry after `PrevLogIndex`. -/
structure Carries (written : List LogEntry) (args : AppendEntriesArgs) : Prop where
  within : args.prevLogIndex ≤ written.length
  entries : args.entries = written.drop args.prevLogIndex
  previous : 0 < args.prevLogIndex → ∃ entry, written[args.prevLogIndex - 1]? = some entry ∧
    entry.term = args.prevLogTerm
  commit : args.leaderCommit ≤ written.length

/-- The entries end where the log does. -/
theorem Carries.reach {written : List LogEntry} {args : AppendEntriesArgs}
    (carries : Carries written args) : args.prevLogIndex + args.entries.length = written.length := by
  rw [carries.entries, List.length_drop, Nat.add_sub_cancel' carries.within]

/-- What an `AppendEntries` in flight is: an end of a part of the reign of its
term, or a probe beyond the leader's log, which no follower accepts. -/
structure Shipment [Fintype ι] (ghost : Consensus.State ι LogEntry) (rpc : AppendRpc ι) : Prop where
  term : rpc.args.term = rpc.term
  led : ghost.Led rpc.term
  content : (∃ written, written <+: ghost.reign rpc.term ∧ Indexed written ∧
      Carries written rpc.args) ∨
    0 < rpc.args.prevLogIndex ∧ rpc.args.prevLogTerm = 0
  decided : rpc.args.leaderCommit = 0 ∨ ∃ term bound, term ≤ rpc.term ∧
    Committed ghost term bound ∧ rpc.args.leaderCommit ≤ bound
  acked : ∀ reply, rpc.phase = .replied reply → reply.success = true →
    ∀ j, deployment.addr j = rpc.peer →
      rpc.args.prevLogIndex + rpc.args.entries.length ≤ ghost.acked rpc.term j

section Stable

variable [Fintype ι] [DecidableEq ι] {deployment}
  {ghost next : Consensus.State ι LogEntry} {i : ι}

theorem Moot.moves {term : Nat} {caller : ι} (moot : Moot ghost term caller)
    (moved : Consensus.Step ghost i next) : Moot next term caller := by
  rcases moot with led | ⟨unslated, reached⟩
  · exact .inl (moved.evolves.led led)
  · refine .inr ⟨?_, reached.trans (moved.evolves.term caller)⟩
    cases slated : next.slate term caller with
    | none => rfl
    | some log =>
      rcases moved.slate_cases slated with old | ⟨ahead, _⟩
      · simp [unslated] at old
      · omega

/-- A step that leaves what belongs to a node alone. -/
theorem Replica.spared {j : ι} {elections : Nat} {node : RaftNode}
    (replica : Replica deployment ghost j elections node) (sound : Consensus.Sound ghost)
    (moved : Consensus.Step ghost i next) (spares : Spares ghost next j) :
    Replica deployment next j elections node where
  voting := replica.voting.others spares.term spares.ballot moved.evolves.leader
  log := by rw [spares.log]; exact replica.log
  indexed := by rw [spares.log]; exact replica.indexed
  stored := replica.stored
  snapshot := replica.snapshot
  settled := sound.settled_step moved replica.settled
  stands candidate := by
    obtain ⟨slated, unelected⟩ := replica.stands candidate
    rw [spares.slate, spares.log]
    exact ⟨slated, fun leads => unelected (spares.leader _ leads)⟩
  progress leads peer different :=
    (replica.progress leads peer different).trans (moved.evolves.acked _ _)
  own leads := by
    rw [spares.log]
    exact (replica.own leads).trans (moved.evolves.acked _ _)
  spawned waiting := (replica.spawned waiting).imp_right (·.moves moved)

theorem Canvass.moves {poll : Poll ι} (canvass : Canvass deployment ghost poll)
    (moved : Consensus.Step ghost i next) : Canvass deployment next poll where
  honest := ⟨fun peer phase member granted j routed =>
    moved.evolves.ballot (canvass.honest.cast peer phase member granted j routed),
    canvass.honest.tally⟩
  standing := by
    rcases canvass.standing with ⟨log, slated, told⟩ | moot
    · exact .inl ⟨log, moved.evolves.slate slated, told⟩
    · exact .inr (moot.moves moved)
  support peer phase member granted j routed := by
    rcases canvass.support peer phase member granted j routed with ⟨log, endorsed⟩ | moot
    · exact .inl ⟨log, moved.evolves.endorsed endorsed⟩
    · exact .inr (moot.moves moved)

theorem Shipment.moves {rpc : AppendRpc ι} (shipment : Shipment deployment ghost rpc)
    (sound : Consensus.Sound ghost) (moved : Consensus.Step ghost i next) :
    Shipment deployment next rpc where
  term := shipment.term
  led := moved.evolves.led shipment.led
  content := by
    rcases shipment.content with ⟨written, initial, carried⟩ | beyond
    · exact .inl ⟨written, initial.trans (moved.evolves.reign shipment.led), carried⟩
    · exact .inr beyond
  decided := by
    rcases shipment.decided with nothing | ⟨term, bound, earlier, committed, below⟩
    · exact .inl nothing
    · exact .inr ⟨term, bound, earlier, sound.committed_step moved committed, below⟩
  acked reply replied success j routed :=
    (shipment.acked reply replied success j routed).trans (moved.evolves.acked _ _)

end Stable

end RaftGo
