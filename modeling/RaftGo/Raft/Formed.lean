import RaftGo.Raft.Terms

/-! The shape of logs, whatever the cluster agrees on: behind the snapshot marker
every entry stands at the index it carries, no entry lacks a term, and every
membership change among them is one that some leader created. None of this needs
agreement between the nodes. -/

namespace RaftGo.Raft

/-- Entries for the indices right behind `offset`. `changes` are the membership
changes leaders have created so far. -/
structure Consecutive (changes : List LogEntry) (offset : Nat) (entries : List LogEntry) :
    Prop where
  placed : ∀ position entry, entries[position]? = some entry → entry.index = offset + position + 1
  stamped : ∀ entry ∈ entries, entry.term ≠ 0
  created : ∀ entry ∈ entries, entry.isConfig = true → entry ∈ changes

namespace Consecutive

variable {changes more : List LogEntry} {offset : Nat} {entry : LogEntry}
  {entries rest : List LogEntry}

theorem nil : Consecutive changes offset [] := ⟨by simp, by simp, by simp⟩

theorem singleton (index : entry.index = offset + 1) (term : entry.term ≠ 0)
    (created : entry.isConfig = true → entry ∈ changes) :
    Consecutive changes offset [entry] where
  placed position found lookup := by
    obtain ⟨inside, rfl⟩ := List.getElem?_eq_some_iff.mp lookup
    have first : position = 0 := by simpa using inside
    simp [first, index]
  stamped other member := List.mem_singleton.mp member ▸ term
  created other member := List.mem_singleton.mp member ▸ created

theorem mono (consecutive : Consecutive changes offset entries) (grown : changes ⊆ more) :
    Consecutive more offset entries :=
  { consecutive with
    created := fun entry member config => grown (consecutive.created entry member config) }

theorem head (consecutive : Consecutive changes offset (entry :: rest)) :
    entry.index = offset + 1 :=
  consecutive.placed 0 entry rfl

theorem append (first : Consecutive changes offset entries)
    (second : Consecutive changes (offset + entries.length) rest) :
    Consecutive changes offset (entries ++ rest) where
  placed position entry found := by
    rcases Nat.lt_or_ge position entries.length with inside | outside
    · rw [List.getElem?_append_left inside] at found
      exact first.placed position entry found
    · rw [List.getElem?_append_right outside] at found
      have index := second.placed _ entry found
      omega
  stamped entry member := (List.mem_append.mp member).elim (first.stamped entry) (second.stamped entry)
  created entry member := (List.mem_append.mp member).elim (first.created entry) (second.created entry)

theorem take (consecutive : Consecutive changes offset entries) (count : Nat) :
    Consecutive changes offset (entries.take count) where
  placed position entry found := by
    rw [List.getElem?_take] at found
    split at found
    · exact consecutive.placed position entry found
    · cases found
  stamped entry member := consecutive.stamped entry (List.mem_of_mem_take member)
  created entry member := consecutive.created entry (List.mem_of_mem_take member)

theorem drop (consecutive : Consecutive changes offset entries) (count : Nat) :
    Consecutive changes (offset + count) (entries.drop count) where
  placed position entry found := by
    rw [List.getElem?_drop] at found
    have index := consecutive.placed _ entry found
    omega
  stamped entry member := consecutive.stamped entry (List.mem_of_mem_drop member)
  created entry member := consecutive.created entry (List.mem_of_mem_drop member)

theorem tail (consecutive : Consecutive changes offset (entry :: rest)) :
    Consecutive changes (offset + 1) rest :=
  consecutive.drop 1

end Consecutive

/-- The snapshot marker is no membership change, and the entries follow it. -/
structure Log.Formed (changes : List LogEntry) (log : Log) : Prop where
  entries : Consecutive changes log.snapshotIndex log.rest
  marker : log.sentinel.isConfig = false

namespace Log.Formed

variable {changes more : List LogEntry} {log : Log}

theorem new : Log.new.Formed changes := ⟨.nil, rfl⟩

theorem mono (formed : log.Formed changes) (grown : changes ⊆ more) : log.Formed more :=
  ⟨formed.entries.mono grown, formed.marker⟩

theorem append (formed : log.Formed changes) {entries : List LogEntry}
    (next : Consecutive changes log.lastIndex entries) : (log.append entries).Formed changes where
  entries := formed.entries.append (log.lastIndex_eq ▸ next)
  marker := formed.marker

theorem truncateFrom (formed : log.Formed changes) {index : Nat}
    (above : log.snapshotIndex < index) : (log.truncateFrom index).Formed changes where
  entries := by
    have same : (log.truncateFrom index).snapshotIndex = log.snapshotIndex :=
      congrArg LogEntry.index (log.sentinel_truncateFrom index)
    rw [same, log.truncateFrom_rest above]
    exact formed.entries.take _
  marker := (log.sentinel_truncateFrom index) ▸ formed.marker

theorem compactTo (formed : log.Formed changes) (index term : Nat) :
    (log.compactTo index term).Formed changes := by
  unfold Log.compactTo
  dsimp only
  split
  · exact formed
  · rename_i ahead
    split
    · exact ⟨.nil, rfl⟩
    · have kept := formed.entries.drop (index - log.snapshotIndex)
      rw [Nat.add_sub_cancel' (Nat.le_of_not_le ahead)] at kept
      exact ⟨kept, rfl⟩

/-- What lies between the snapshot marker and the last index can be read back. -/
theorem get (formed : log.Formed changes) {index : Nat} (above : log.snapshotIndex < index)
    (inside : index ≤ log.lastIndex) : log.get index ∈ log.rest ∧ (log.get index).index = index := by
  rw [lastIndex_eq] at inside
  have found := List.getElem?_eq_getElem
    (show index - log.snapshotIndex - 1 < log.rest.length by omega)
  rw [log.get_of_gt above, found, Option.getD_some]
  have placed := formed.entries.placed _ _ found
  exact ⟨List.getElem_mem _, by omega⟩

theorem get_config (formed : log.Formed changes) {index : Nat}
    (config : (log.get index).isConfig = true) :
    log.get index ∈ changes ∧ (log.get index).index = index := by
  rcases Nat.lt_trichotomy index log.snapshotIndex with below | rfl | above
  · simp [log.get_of_lt below] at config
  · simp [log.get_snapshotIndex, formed.marker] at config
  · rcases Nat.lt_or_ge log.lastIndex index with beyond | inside
    · simp [log.get_of_lastIndex_lt beyond] at config
    · obtain ⟨member, placed⟩ := formed.get above inside
      exact ⟨formed.entries.created _ member config, placed⟩

/-- The merge loop keeps entries at their index, wherever it starts to differ. -/
theorem mergeEntries (formed : log.Formed changes) {entries : List LogEntry} {offset : Nat}
    (sent : Consecutive changes offset entries) (reach : offset ≤ log.lastIndex) :
    (log.mergeEntries entries).Formed changes := by
  induction entries generalizing offset with
  | nil => exact formed
  | cons entry rest ih =>
    simp only [Log.mergeEntries, sent.head]
    split
    · rename_i covered
      have boundary := log.lastIndex_eq
      exact ih sent.tail (by omega)
    · rename_i above
      have above := Nat.lt_of_not_le above
      rcases Nat.lt_or_eq_of_le reach with inside | rfl
      · have present := formed.entries.stamped _ (formed.get above inside).1
        rw [if_neg present]
        split
        · -- the entries from here on replace those of the log
          have cut := formed.truncateFrom above
          refine cut.append ?_
          have size : (log.truncateFrom (offset + 1)).lastIndex = offset := by
            have same : (log.truncateFrom (offset + 1)).snapshotIndex = log.snapshotIndex :=
              congrArg LogEntry.index (log.sentinel_truncateFrom (offset + 1))
            have boundary := log.lastIndex_eq
            rw [lastIndex_eq, same, log.truncateFrom_rest above, List.length_take]
            omega
          exact size.symm ▸ sent
        · exact ih sent.tail inside
      · have missing : (log.get (log.lastIndex + 1)).term = 0 := by
          rw [log.get_of_lastIndex_lt (Nat.lt_succ_self _)]
        rw [if_pos missing]
        exact formed.append sent

end Log.Formed

def AppendEntriesArgs.Formed (changes : List LogEntry) (args : AppendEntriesArgs) : Prop :=
  Consecutive changes args.prevLogIndex args.entries

/-- Snapshots carry no entries. -/
def Outgoing.Formed (changes : List LogEntry) : Outgoing → Prop
  | .append _ _ args => args.Formed changes
  | .install _ _ _ => True

namespace RaftNode

section

variable {node : RaftNode}

theorem log_advanceMatch (peer : String) (newMatch : Nat) :
    (node.advanceMatch peer newMatch).log = node.log := by
  unfold advanceMatch
  dsimp only
  split <;> rfl

theorem log_recordReply (now : Nat) (peer : String) (args : AppendEntriesArgs)
    (reply : AppendEntriesReply) : (node.recordReply now peer args reply).log = node.log := by
  have commit (leader : RaftNode) : leader.maybeCommit.log = leader.log := by
    unfold maybeCommit
    split <;> rfl
  unfold recordReply
  dsimp only
  split
  · rw [commit, log_advanceMatch]
  · rfl

end

structure Formed (changes : List LogEntry) (node : RaftNode) : Prop where
  log : node.log.Formed changes
  elected : node.state ≠ .follower → node.currentTerm ≠ 0

namespace Formed

variable {changes more : List LogEntry} {node after : RaftNode}

theorem mono (formed : node.Formed changes) (grown : changes ⊆ more) : node.Formed more :=
  ⟨formed.log.mono grown, formed.elected⟩

/-- No leadership is won, and the term stays or the node steps down. -/
theorem advance (formed : node.Formed changes) (advances : node.Advances after)
    (log : after.log.Formed changes) : after.Formed changes where
  log := log
  elected leads := by
    obtain ⟨term, kept⟩ := advances
    rcases kept.state with same | follower
    · rw [same] at leads
      rw [kept.currentTerm]
      rcases node.stepDown_cases term with ⟨_, stays⟩ | ⟨_, steps⟩
      · rw [stays] at leads ⊢
        exact formed.elected leads
      · rw [steps] at leads
        exact absurd rfl leads
    · exact absurd follower leads

theorem stepDown (formed : node.Formed changes) (term : Nat) :
    (node.stepDown term).Formed changes :=
  formed.advance (advances_stepDown term) (node.log_stepDown term ▸ formed.log)

theorem keep (formed : node.Formed changes) (keeps : node.KeepsVote after)
    (log : after.log = node.log) : after.Formed changes :=
  formed.advance keeps.advances (log ▸ formed.log)

theorem handleRequestVote (formed : node.Formed changes) (now : Nat) (args : RequestVoteArgs) :
    (node.handleRequestVote now args).1.Formed changes := by
  rcases node.handleRequestVote_cases now args with ⟨⟨term, stepped⟩, _⟩ | ⟨_, _, _, _, granted⟩
  · exact stepped ▸ formed.stepDown term
  · rw [granted]
    have relieved := formed.stepDown args.term
    exact ⟨relieved.log, relieved.elected⟩

theorem handleVoteReply (formed : node.Formed changes) (now term votes majority : Nat)
    (reply : RequestVoteReply) :
    (node.handleVoteReply now term votes majority reply).1.Formed changes := by
  rcases node.handleVoteReply_cases now term votes majority reply with
    ⟨⟨seen, stepped⟩, _⟩ | ⟨stands, _, _, _, won⟩
  · exact stepped ▸ formed.stepDown seen
  · rw [won]
    exact ⟨formed.log, fun _ => formed.elected (by simp [stands])⟩

theorem handleAppendReply (formed : node.Formed changes) (now : Nat) (peer : String) (term : Nat)
    (args : AppendEntriesArgs) (reply : AppendEntriesReply) :
    (node.handleAppendReply now peer term args reply).Formed changes := by
  rcases node.handleAppendReply_cases now peer term args reply with ⟨seen, stepped⟩ |
    ⟨_, _, recorded⟩
  · exact stepped ▸ formed.stepDown seen
  · rw [recorded]
    exact formed.keep (keepsVote_recordReply now peer args reply)
      (log_recordReply now peer args reply)

theorem handleInstallReply (formed : node.Formed changes) (peer : String) (term : Nat)
    (args : InstallSnapshotArgs) (reply : InstallSnapshotReply) :
    (node.handleInstallReply peer term args reply).Formed changes := by
  rcases node.handleInstallReply_cases peer term args reply with ⟨seen, stepped⟩ |
    ⟨_, _, advanced⟩
  · exact stepped ▸ formed.stepDown seen
  · rw [advanced]
    exact formed.keep (keepsVote_advanceMatch peer _) (log_advanceMatch peer _)

theorem handleAppendEntries (formed : node.Formed changes) {args : AppendEntriesArgs}
    (sent : args.Formed changes) (now : Nat) :
    (node.handleAppendEntries now args).1.Formed changes := by
  refine formed.advance (advances_handleAppendEntries now args) ?_
  rcases node.log_handleAppendEntries_cases now args with same | ⟨agrees, _, merged⟩
  · exact same.symm ▸ formed.log
  · rw [merged]
    exact formed.log.mergeEntries sent (prevLogIndex_le agrees)

theorem takeSnapshot (formed : node.Formed changes) (data : Bytes) (saved : Bool) :
    (node.takeSnapshot data saved).Formed changes := by
  refine formed.advance (keepsVote_takeSnapshot data saved).advances ?_
  rcases node.takeSnapshot_cases data saved with same | ⟨_, term, built⟩
  · exact same.symm ▸ formed.log
  · rw [built]
    exact formed.log.compactTo _ _

theorem handleInstallSnapshot (formed : node.Formed changes) (args : InstallSnapshotArgs)
    (saved : Bool) : (node.handleInstallSnapshot args saved).1.Formed changes := by
  refine formed.advance (advances_handleInstallSnapshot args saved) ?_
  rcases node.log_handleInstallSnapshot_cases args saved with same | ⟨_, compacted⟩
  · exact same.symm ▸ formed.log
  · rw [compacted]
    exact formed.log.compactTo _ _

theorem becomeCandidate (formed : node.Formed changes) : node.becomeCandidate.Formed changes :=
  ⟨formed.log, fun _ => Nat.succ_ne_zero _⟩

theorem heartbeatTick (formed : node.Formed changes) (now : Nat) :
    (node.heartbeatTick now).1.Formed changes := by
  unfold RaftNode.heartbeatTick RaftNode.checkQuorum
  split
  · split
    · exact ⟨formed.log, formed.elected⟩
    · split
      · exact ⟨formed.log, fun leads => absurd rfl leads⟩
      · exact ⟨formed.log, formed.elected⟩
  · exact formed

theorem extend (formed : node.Formed changes) {entry : LogEntry} (leads : node.state = .leader)
    (index : entry.index = node.log.lastIndex + 1) (term : entry.term = node.currentTerm)
    (created : entry.isConfig = true → entry ∈ changes)
    (log : after.log = node.log.append [entry])
    (same : after.currentTerm = node.currentTerm) : after.Formed changes := by
  have current : node.currentTerm ≠ 0 := formed.elected (by simp [leads])
  refine ⟨?_, fun _ => same ▸ current⟩
  rw [log]
  exact formed.log.append (.singleton index (term ▸ current) created)

theorem submit (formed : node.Formed changes) (command : Bytes) :
    (node.submit command).1.Formed changes := by
  unfold RaftNode.submit
  split
  · exact formed
  · rename_i leads
    exact formed.extend (not_not.mp leads) rfl rfl (by simp) rfl rfl

theorem addPeer (formed : node.Formed changes) (now : Nat) {rpcAddr : String}
    (created : ∀ entry ∈ node.addEntry? rpcAddr, entry ∈ changes) :
    (node.addPeer now rpcAddr).1.Formed changes := by
  rcases node.addPeer_cases now rpcAddr with ⟨_, same, _⟩ | ⟨some, leads, _, _, added, _⟩
  · exact same.symm ▸ formed
  · rw [added]
    exact formed.extend leads rfl rfl (fun _ => created _ some) rfl rfl

theorem removePeer (formed : node.Formed changes) (now : Nat) {rpcAddr : String}
    (created : ∀ entry ∈ node.removeEntry? rpcAddr, entry ∈ changes) :
    (node.removePeer now rpcAddr).1.Formed changes := by
  rcases node.removePeer_cases now rpcAddr with ⟨_, same, _⟩ | ⟨some, leads, removed, _⟩
  · exact same.symm ▸ formed
  · rw [removed]
    exact formed.extend leads rfl rfl (fun _ => created _ some) rfl rfl

theorem applyConfigEntry (formed : node.Formed changes) (now : Nat) (entry : LogEntry) :
    (node.applyConfigEntry now entry).Formed changes := by
  obtain ⟨state, leaderID, nextIndex, matchIndex, lastHeardFrom, kept, applied⟩ :=
    node.applyConfigEntry_eq now entry
  rw [applied]
  refine ⟨formed.log, fun leads => formed.elected ?_⟩
  rcases kept with same | follower
  · exact same ▸ leads
  · exact absurd follower leads

/-- A node sends a part of its log, from wherever it takes the peer to be. -/
theorem replicate (formed : node.Formed changes) :
    ∀ out ∈ node.replicate, out.Formed changes := by
  intro out member
  obtain ⟨peer, _, rfl⟩ := List.mem_map.mp member
  unfold RaftNode.replicateTo
  split
  · trivial
  · rename_i above
    have above := Nat.lt_of_not_le above
    have sent := (formed.log.entries.take (node.log.lastIndex + 1 - node.log.snapshotIndex - 1)).drop
      (node.nextIndex.read peer - node.log.snapshotIndex - 1)
    rw [← node.log.slice_rest above,
      show node.log.snapshotIndex + (node.nextIndex.read peer - node.log.snapshotIndex - 1) =
        node.nextIndex.read peer - 1 by omega] at sent
    exact sent

end Formed

end RaftNode

end RaftGo.Raft
