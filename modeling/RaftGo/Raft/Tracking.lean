import RaftGo.Raft.Parts
import RaftGo.Raft.Whole

/-! What a leader knows of its peers: `nextIndex` and `matchIndex` through every handler.
Whatever holds of a new peer is kept by all of them but two. An acknowledgement raises
`matchIndex`, and a rejection moves `nextIndex` without looking at `matchIndex`. -/

namespace RaftGo.Raft.RaftNode

variable {node after : RaftNode} {now : Nat} {part : Part} {parts : List Part}
  {knows known : String → Option Nat → Option Nat → Prop}

/-- A leader knows this of the `nextIndex` and the `matchIndex` of every peer. -/
def Oversees (knows : String → Option Nat → Option Nat → Prop) (node : RaftNode) : Prop :=
  node.state = .leader → ∀ peer ∈ node.peers,
    knows peer (node.nextIndex peer) (node.matchIndex peer)

/-- It holds of a peer that is tracked from some entry on, and stays so if the leader
returns to what the peer has acknowledged. -/
structure Sustained (knows : String → Option Nat → Option Nat → Prop) : Prop where
  fresh : ∀ peer last, knows peer (some (last + 1)) (some 0)
  again : ∀ peer next matched, knows peer next matched →
    knows peer (some (matched.getD 0 + 1)) matched

/-- The leader records a reply to a request of the given term. -/
def Records (node : RaftNode) (term replied : Nat) : Prop :=
  node.state = .leader ∧ node.currentTerm = term ∧ replied ≤ node.currentTerm

/-- The leader records a rejection. -/
def Rejects (node : RaftNode) (term : Nat) (reply : AppendEntriesReply) : Prop :=
  node.Records term reply.term ∧ reply.success = false

instance decidableRecords (node : RaftNode) (term replied : Nat) :
    Decidable (node.Records term replied) :=
  inferInstanceAs (Decidable (_ ∧ _ ∧ _))

instance decidableRejects (node : RaftNode) (term : Nat) (reply : AppendEntriesReply) :
    Decidable (node.Rejects term reply) :=
  inferInstanceAs (Decidable (_ ∧ _))

-- the two guards of `sendToPeer` and `sendSnapshotToPeer`
theorem records_of_guards {term replied : Nat} (current : ¬replied > node.currentTerm)
    (fresh : ¬(node.state ≠ .leader ∨ node.currentTerm ≠ term)) : node.Records term replied := by
  simp only [ne_eq, not_or, not_not] at fresh
  exact ⟨fresh.1, fresh.2, Nat.le_of_not_lt current⟩

namespace Oversees

theorem mono (oversees : node.Oversees known)
    (weaker : ∀ peer ∈ node.peers, ∀ next matched, known peer next matched →
      knows peer next matched) : node.Oversees knows :=
  fun leads peer member => weaker peer member _ _ (oversees leads peer member)

theorem frame (oversees : node.Oversees knows) (state : after.state = node.state)
    (peers : after.peers = node.peers) (nextIndex : after.nextIndex = node.nextIndex)
    (matchIndex : after.matchIndex = node.matchIndex) : after.Oversees knows := by
  intro leads peer member
  rw [nextIndex, matchIndex]
  exact oversees (state ▸ leads) peer (peers ▸ member)

theorem idle (state : node.state ≠ .leader) : node.Oversees knows :=
  fun leads => absurd leads state

/-- A new leader starts behind its last entry with every peer. -/
theorem becomeLeader (sustained : Sustained knows) (node : RaftNode) (now : Nat) :
    (node.becomeLeader now).Oversees knows := by
  intro _ peer member
  have listed : peer ∈ node.peers := member
  have next : (node.becomeLeader now).nextIndex peer = some (node.log.lastIndex + 1) :=
    lookup_foldl_set _ listed _
  have matched : (node.becomeLeader now).matchIndex peer = some 0 := lookup_foldl_set _ listed _
  rw [next, matched]
  exact sustained.fresh peer _

theorem advanceMatch (oversees : node.Oversees knows) (sustained : Sustained knows) {peer : String}
    {newMatch : Nat} (gained : peer ∈ node.peers → 0 < newMatch →
      knows peer (some (newMatch + 1)) (some newMatch)) :
    (node.advanceMatch peer newMatch).Oversees knows := by
  intro leads other member
  rw [state_advanceMatch] at leads
  rw [peers_advanceMatch] at member
  have known := oversees leads other member
  unfold RaftNode.advanceMatch
  dsimp only
  by_cases same : other = peer
  · subst same
    split
    · rename_i larger
      simpa [Table.set, Table.read] using gained member (Nat.zero_lt_of_lt larger)
    · simpa [Table.set, Table.read] using sustained.again other _ _ known
  · split <;> simpa [Table.set, same] using known

theorem maybeCommit (oversees : node.Oversees knows) : node.maybeCommit.Oversees knows := by
  obtain ⟨commitIndex, signal, committed⟩ := node.maybeCommit_eq
  rw [committed]
  exact oversees.frame rfl rfl rfl rfl

/-- The hint of a rejection must fit what the leader knows of the peer. -/
theorem handleAppendReply (oversees : node.Oversees knows) (sustained : Sustained knows) (now : Nat)
    {peer : String} {term : Nat} {args : AppendEntriesArgs} {reply : AppendEntriesReply}
    (gained : node.Records term reply.term → reply.success = true → peer ∈ node.peers →
      0 < args.prevLogIndex + args.entries.length →
      knows peer (some (args.prevLogIndex + args.entries.length + 1))
        (some (args.prevLogIndex + args.entries.length)))
    (rejected : node.Rejects term reply → peer ∈ node.peers →
      knows peer (some (max (node.conflictNext reply) 1)) (node.matchIndex peer)) :
    (node.handleAppendReply now peer term args reply).Oversees knows := by
  unfold RaftNode.handleAppendReply
  split
  · exact idle nofun
  · rename_i current
    split
    · exact oversees
    · rename_i fresh
      have records := records_of_guards current fresh
      have heard : Oversees knows { node with lastHeardFrom := node.lastHeardFrom.set peer now } :=
        oversees.frame rfl rfl rfl rfl
      unfold recordReply
      dsimp only
      split
      · rename_i accepted
        exact (heard.advanceMatch sustained (gained records accepted)).maybeCommit
      · rename_i refused
        intro leads other member
        dsimp only [Table.set]
        by_cases same : other = peer
        · subst same
          rw [Function.update_self]
          exact rejected ⟨records, by simpa using refused⟩ member
        · rw [Function.update_of_ne same]
          exact oversees leads other member

theorem handleInstallReply (oversees : node.Oversees knows) (sustained : Sustained knows)
    {peer : String} {term : Nat} {args : InstallSnapshotArgs} {reply : InstallSnapshotReply}
    (gained : node.Records term reply.term → peer ∈ node.peers → 0 < args.lastIncludedIndex →
      knows peer (some (args.lastIncludedIndex + 1)) (some args.lastIncludedIndex)) :
    (node.handleInstallReply peer term args reply).Oversees knows := by
  unfold RaftNode.handleInstallReply
  split
  · exact idle nofun
  · rename_i current
    split
    · exact oversees
    · rename_i fresh
      exact oversees.advanceMatch sustained (gained (records_of_guards current fresh))

/-- A peer taken into the list is tracked from some entry on. -/
theorem trackPeer (oversees : node.Oversees knows) (sustained : Sustained knows) (addr : String)
    {last : Nat} (state : after.state = node.state) (peers : after.peers = node.peers ++ [addr])
    (nextIndex : after.nextIndex = node.nextIndex.set addr (last + 1))
    (matchIndex : after.matchIndex = node.matchIndex.set addr 0) : after.Oversees knows := by
  intro leads peer member
  rw [nextIndex, matchIndex, Table.set, Table.set]
  by_cases same : peer = addr
  · rw [same, Function.update_self, Function.update_self]
    exact sustained.fresh addr last
  · rw [Function.update_of_ne same, Function.update_of_ne same]
    rw [peers, List.mem_append, List.mem_singleton] at member
    exact oversees (state ▸ leads) peer (member.resolve_right same)

theorem addPeer (oversees : node.Oversees knows) (sustained : Sustained knows) (now : Nat)
    (rpcAddr : String) : (node.addPeer now rpcAddr).1.Oversees knows := by
  unfold RaftNode.addPeer
  split
  · exact oversees
  · split
    · exact oversees
    · exact oversees.trackPeer sustained rpcAddr rfl rfl rfl rfl

theorem applyConfigEntry (oversees : node.Oversees knows) (sustained : Sustained knows) (now : Nat)
    (entry : LogEntry) : (node.applyConfigEntry now entry).Oversees knows := by
  unfold RaftNode.applyConfigEntry
  split
  · split
    · exact oversees
    · dsimp only
      split
      · exact oversees.trackPeer sustained entry.configPeer rfl rfl rfl rfl
      · rename_i follows
        exact idle follows
  · split
    · unfold leaveCluster
      dsimp only
      split
      · exact idle nofun
      · rename_i follows
        exact idle follows
    · intro leads peer member
      obtain ⟨listed, other⟩ := List.mem_filter.mp member
      have kept := oversees leads peer listed
      simp only [Table.delete]
      rwa [Function.update_of_ne (by simpa using other), Function.update_of_ne (by simpa using other)]
  · exact oversees

end Oversees

/-- Nothing else touches what a leader keeps for its peers. -/
theorem Change.oversees (change : Change now node part after)
    (other : part ∉ [.tracking, .peers]) (sustained : Sustained knows)
    (oversees : node.Oversees knows) : after.Oversees knows := by
  cases change with
  | becomeFollower | concede | becomeCandidate => exact .idle nofun
  | becomeLeader => exact .becomeLeader sustained node now
  | maybeCommit => exact oversees.maybeCommit
  | advanceCommit leaderCommit =>
    obtain ⟨commitIndex, signal, committed⟩ := node.advanceCommit_eq leaderCommit
    rw [committed]
    exact oversees.frame rfl rfl rfl rfl
  | progress | heard | trackPeer | addPeer => simp at other
  | _ => exact oversees.frame rfl rfl rfl rfl

theorem Changes.oversees (changes : Changes now parts node after)
    (others : ∀ part ∈ parts, part ∉ [.tracking, .peers]) (sustained : Sustained knows)
    (oversees : node.Oversees knows) : after.Oversees knows := by
  induction changes with
  | refl => exact oversees
  | tail _ last ih =>
    obtain ⟨part, member, change⟩ := last
    exact change.oversees (others part member) sustained ih

/-- The peer is to be sent more than it has acknowledged, and if it has acknowledged an entry
that is on record. -/
def Ahead (onRecord : String → Prop) (peer : String) (next matched : Option Nat) : Prop :=
  matched.getD 0 < next.getD 0 ∧ (0 < matched.getD 0 → onRecord peer)

theorem sustained_ahead (onRecord : String → Prop) : Sustained (Ahead onRecord) where
  fresh _ last := ⟨Nat.succ_pos last, fun some => absurd some (Nat.lt_irrefl 0)⟩
  again _ _ _ known := ⟨Nat.lt_succ_self _, known.2⟩

/-- The peer is tracked: there is something to send it from the first entry on, and a record
of what it has acknowledged. -/
def Recorded (next matched : Option Nat) : Prop := 1 ≤ next.getD 0 ∧ matched.isSome = true

theorem sustained_recorded : Sustained fun _ => Recorded where
  fresh _ last := ⟨Nat.succ_pos last, rfl⟩
  again _ _ _ known := ⟨Nat.succ_pos _, known.2⟩

end RaftGo.Raft.RaftNode
