import RaftGo.Raft.Cases

/-! Nodes that have seen no membership change: their identity and peers are
those of their configuration, and no log they hold or have written contains a
configuration entry. Everything but `AddPeer` and `RemovePeer` keeps a node
plain as long as the entries it receives are. -/

namespace RaftGo.Raft

def PlainEntries (entries : List LogEntry) : Prop := ∀ entry ∈ entries, entry.isConfig = false

def Log.Plain (log : Log) : Prop := PlainEntries log.entries

def Disk.Plain (disk : Disk) : Prop := ∀ state, disk.state = some state → state.entries.Plain

namespace Log.Plain

variable {log : Log}

theorem new : Log.new.Plain := by
  simp [Log.Plain, PlainEntries, Log.new, Log.entries]

theorem get (plain : log.Plain) (index : Nat) : (log.get index).isConfig = false := by
  unfold Log.get
  dsimp only
  split
  · rfl
  · cases found : log.entries[index - log.snapshotIndex]? with
    | none => rfl
    | some entry => exact plain entry (List.mem_of_getElem? found)

theorem append (plain : log.Plain) {entries : List LogEntry} (fresh : PlainEntries entries) :
    (log.append entries).Plain := by
  intro entry member
  simp only [Log.entries, rest_append, sentinel_append, ← List.cons_append] at member
  rcases List.mem_append.mp member with old | new
  · exact plain entry old
  · exact fresh entry new

theorem truncateFrom (plain : log.Plain) (index : Nat) : (log.truncateFrom index).Plain := by
  unfold Log.truncateFrom
  dsimp only
  split
  · exact plain
  · split
    · intro entry member
      simp only [Log.entries, List.mem_cons] at member
      rcases member with rfl | kept
      · exact plain _ (by simp [Log.entries])
      · exact plain entry (by simp [Log.entries, List.mem_of_mem_take kept])
    · exact plain

theorem compactTo (plain : log.Plain) (index term : Nat) : (log.compactTo index term).Plain := by
  unfold Log.compactTo
  dsimp only
  split
  · exact plain
  · split
    · simp [Log.Plain, PlainEntries, Log.entries]
    · intro entry member
      simp only [Log.entries, List.mem_cons] at member
      rcases member with rfl | kept
      · rfl
      · exact plain entry (by simp [Log.entries, List.mem_of_mem_drop kept])

theorem mergeEntries (plain : log.Plain) {entries : List LogEntry} (fresh : PlainEntries entries) :
    (log.mergeEntries entries).Plain := by
  induction entries with
  | nil => exact plain
  | cons entry rest ih =>
    have later : (log.mergeEntries rest).Plain :=
      ih fun other member => fresh other (List.mem_cons_of_mem _ member)
    simp only [Log.mergeEntries]
    split
    · exact later
    · split
      · exact plain.append fresh
      · split
        · exact (plain.truncateFrom _).append fresh
        · exact later

theorem slice (plain : log.Plain) (low high : Nat) : PlainEntries (log.slice low high) := by
  intro entry member
  simp only [Log.slice] at member
  generalize (if low ≤ log.snapshotIndex then log.snapshotIndex + 1 else low) = first at member
  split at member
  · cases member
  · split at member
    · cases member
    · exact plain entry (List.mem_of_mem_take (List.mem_of_mem_drop member))

end Log.Plain

namespace RaftNode

/-- The node is as its configuration says and has seen no membership change. -/
structure Plain (cfg : Config) (node : RaftNode) : Prop where
  config : node.config = (newRaftNode cfg).config
  id : node.id = cfg.id
  peers : node.peers = cfg.peers
  log : node.log.Plain
  disk : node.disk.Plain
  journal : ∀ disk ∈ node.journal, disk.Plain

namespace Plain

variable {cfg : Config} {node : RaftNode}

theorem write (plain : node.Plain cfg) {disk : Disk} (fresh : disk.Plain) :
    (node.write disk).Plain cfg where
  config := plain.config
  id := plain.id
  peers := plain.peers
  log := plain.log
  disk := fresh
  journal other member := by
    rcases List.mem_append.mp member with old | new
    · exact plain.journal other old
    · exact List.mem_singleton.mp new ▸ fresh

theorem persist (plain : node.Plain cfg) : node.persist.Plain cfg := by
  apply plain.write
  intro state written
  cases written
  exact plain.log

theorem becomeFollower (plain : node.Plain cfg) (term : Nat) :
    (node.becomeFollower term).Plain cfg :=
  persist { plain with }

theorem becomeCandidate (plain : node.Plain cfg) : node.becomeCandidate.Plain cfg :=
  persist { plain with }

theorem becomeLeader (plain : node.Plain cfg) (now : Nat) : (node.becomeLeader now).Plain cfg :=
  { plain with }

theorem stepDown (plain : node.Plain cfg) (term : Nat) : (node.stepDown term).Plain cfg := by
  unfold RaftNode.stepDown
  split
  · exact plain.becomeFollower term
  · exact plain

theorem grantVote (plain : node.Plain cfg) (candidateID : String) :
    (node.grantVote candidateID).Plain cfg := by
  have voted : Plain cfg { node with votedFor := candidateID } := { plain with }
  exact { voted.persist with }

theorem handleRequestVote (plain : node.Plain cfg) (now : Nat) (args : RequestVoteArgs) :
    (node.handleRequestVote now args).1.Plain cfg := by
  unfold RaftNode.handleRequestVote RaftNode.handlePreVote RaftNode.handleRealVote
  dsimp only
  split
  · split <;> exact plain
  · split
    · exact plain.stepDown _
    · split
      · exact (plain.stepDown _).grantVote _
      · exact plain.stepDown _

theorem handleVoteReply (plain : node.Plain cfg) (now term votes majority : Nat)
    (reply : RequestVoteReply) :
    (node.handleVoteReply now term votes majority reply).1.Plain cfg := by
  unfold RaftNode.handleVoteReply
  split
  · exact plain.becomeFollower _
  · split
    · exact plain
    · split
      · exact plain
      · split
        · exact plain.becomeLeader now
        · exact plain

theorem checkQuorum (plain : node.Plain cfg) (now : Nat) : (node.checkQuorum now).Plain cfg := by
  unfold RaftNode.checkQuorum
  split
  · exact plain
  · split
    · exact plain.becomeFollower _
    · exact plain

theorem heartbeatTick (plain : node.Plain cfg) (now : Nat) :
    (node.heartbeatTick now).1.Plain cfg := by
  unfold RaftNode.heartbeatTick
  split
  · exact { plain.checkQuorum now with }
  · exact plain

theorem submit (plain : node.Plain cfg) (command : Bytes) : (node.submit command).1.Plain cfg := by
  unfold RaftNode.submit
  split
  · exact plain
  · refine persist { plain with log := plain.log.append ?_ }
    intro entry member
    rw [List.mem_singleton.mp member]

theorem maybeCommit (plain : node.Plain cfg) : node.maybeCommit.Plain cfg := by
  unfold RaftNode.maybeCommit
  split
  · exact { plain with }
  · exact plain

theorem advanceMatch (plain : node.Plain cfg) (peer : String) (newMatch : Nat) :
    (node.advanceMatch peer newMatch).Plain cfg := by
  unfold RaftNode.advanceMatch
  dsimp only
  split <;> exact { plain with }

theorem handleAppendReply (plain : node.Plain cfg) (now : Nat) (peer : String) (term : Nat)
    (args : AppendEntriesArgs) (reply : AppendEntriesReply) :
    (node.handleAppendReply now peer term args reply).Plain cfg := by
  unfold RaftNode.handleAppendReply RaftNode.recordReply
  dsimp only
  have heard : Plain cfg { node with lastHeardFrom := node.lastHeardFrom.set peer now } :=
    { plain with }
  split
  · exact plain.becomeFollower _
  · split
    · exact plain
    · split
      · exact (heard.advanceMatch peer _).maybeCommit
      · exact { plain with }

theorem observeLeader (plain : node.Plain cfg) (term : Nat) :
    (node.observeLeader term).Plain cfg := by
  unfold RaftNode.observeLeader
  split
  · exact plain.becomeFollower term
  · split
    · exact { plain with }
    · exact plain

theorem acceptEntries (plain : node.Plain cfg) {args : AppendEntriesArgs}
    (fresh : PlainEntries args.entries) : (node.acceptEntries args).Plain cfg := by
  have merged : Plain cfg { node with log := node.log.mergeEntries args.entries } :=
    { plain with log := plain.log.mergeEntries fresh }
  have advanced : Plain cfg (RaftNode.advanceCommit
      { node with log := node.log.mergeEntries args.entries } args.leaderCommit) := by
    unfold RaftNode.advanceCommit
    split
    · exact { merged with }
    · exact merged
  unfold RaftNode.acceptEntries
  dsimp only
  split
  · exact { advanced.persist with }
  · exact advanced.persist

theorem handleAppendEntries (plain : node.Plain cfg) (now : Nat) {args : AppendEntriesArgs}
    (fresh : PlainEntries args.entries) : (node.handleAppendEntries now args).1.Plain cfg := by
  have observed := plain.observeLeader args.term
  have contacted : ((node.observeLeader args.term).contacted now args.leaderID).Plain cfg :=
    { observed with }
  unfold RaftNode.handleAppendEntries
  dsimp only
  split
  · exact observed
  · split
    · exact contacted
    · exact contacted.acceptEntries fresh

theorem writeSnapshot (plain : node.Plain cfg) (file : SnapshotFile) :
    (node.write { node.disk with snapshot := some file }).Plain cfg :=
  plain.write plain.disk

theorem takeSnapshot (plain : node.Plain cfg) (data : Bytes) (saved : Bool) :
    (node.takeSnapshot data saved).Plain cfg := by
  rcases node.takeSnapshot_cases data saved with same | ⟨_, term, built⟩
  · exact same.symm ▸ plain
  · rw [built]
    have kept := plain.writeSnapshot { index := node.lastApplied, term, data }
    exact persist { kept with log := kept.log.compactTo _ _ }

theorem installSnapshot (plain : node.Plain cfg) (args : InstallSnapshotArgs) :
    (node.installSnapshot args).Plain cfg := by
  have compacted : Plain cfg { node with
      snapshotData := args.data
      log := node.log.compactTo args.lastIncludedIndex args.lastIncludedTerm
      lastApplied := max node.lastApplied args.lastIncludedIndex
      commitIndex := max node.commitIndex args.lastIncludedIndex } :=
    { plain with log := plain.log.compactTo _ _ }
  exact { compacted.persist with }

theorem handleInstallSnapshot (plain : node.Plain cfg) (args : InstallSnapshotArgs)
    (saved : Bool) : (node.handleInstallSnapshot args saved).1.Plain cfg := by
  obtain ⟨relieved, before, outcome⟩ := node.handleInstallSnapshot_cases args saved
  have kept : relieved.Plain cfg := by
    cases before <;> exact { plain.stepDown args.term with }
  rcases outcome with same | ⟨_, built⟩
  · exact same ▸ kept
  · rw [built]
    exact (kept.writeSnapshot _).installSnapshot args

theorem handleInstallReply (plain : node.Plain cfg) (peer : String) (term : Nat)
    (args : InstallSnapshotArgs) (reply : InstallSnapshotReply) :
    (node.handleInstallReply peer term args reply).Plain cfg := by
  unfold RaftNode.handleInstallReply
  split
  · exact plain.becomeFollower _
  · split
    · exact plain
    · exact plain.advanceMatch peer _

/-- A restart forgets everything but the disk. -/
theorem boot {disk : Disk} (plain : disk.Plain) : (boot cfg disk).Plain cfg := by
  obtain ⟨term, data, booted⟩ := boot_eq cfg disk
  have loaded : disk.log.Plain := by
    unfold Disk.log
    cases written : disk.state with
    | none => exact .new
    | some state => exact plain state written
  rw [booted]
  exact {
    config := rfl
    id := rfl
    peers := rfl
    log := loaded.compactTo _ _
    disk := plain
    journal := by simp [newRaftNode] }

end Plain

end RaftNode

end RaftGo.Raft
