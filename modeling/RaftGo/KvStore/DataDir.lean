import RaftGo.KvStore.Transitions
import RaftGo.Library.Replacement

/-! The data directory file by file (`raft/persist.go`, `raft/snapshot.go`). `persist` and
`saveSnapshot` replace their files by writing a temporary one, `fsync` and `rename`; nothing
flushes the directory. A file is found complete or not at all, and a process that goes down
in the middle of a handler finds the data directory as it was between two of its writes. -/

namespace RaftGo.Raft

open Library

inductive StoredFile where
  | state
  | snapshot
deriving DecidableEq

def StoredFile.path : StoredFile → String
  | .state => "raft-state.bin"
  | .snapshot => "raft-snapshot.bin"

def StoredFile.tmp (file : StoredFile) : String := file.path ++ ".tmp"

theorem StoredFile.path_injective : Function.Injective path := by
  intro one two same
  cases one <;> cases two <;> first | rfl | simp [path] at same

theorem StoredFile.path_ne_tmp (file other : StoredFile) : file.path ≠ other.tmp := by
  cases file <;> cases other <;> simp [path, tmp]

def dataDir : Naming StoredFile String where
  final := StoredFile.path
  temporary := StoredFile.tmp
  final_injective := StoredFile.path_injective
  disjoint := StoredFile.path_ne_tmp

/-- A `gob` encoding: the bytes as the encoder writes them, one call after the other, and
what the decoder makes of them. Arbitrary bytes may fail to decode. -/
structure Format (α : Type) where
  encode : α → List Bytes
  decode : Bytes → Option α
  decode_encode : ∀ value, decode (encode value).flatten = some value

structure FileFormats where
  state : Format PersistedState
  snapshot : Format SnapshotFile

/-- What `persist` and `saveSnapshot` are given to write. -/
inductive Save where
  | persist (state : PersistedState)
  | saveSnapshot (file : SnapshotFile)

def Disk.save (disk : Disk) : Save → Disk
  | .persist state => { disk with state := some state }
  | .saveSnapshot file => { disk with snapshot := some file }

/-- The contents the data directory goes through when these are saved in turn. -/
def Disk.trail (disk : Disk) : List Save → List Disk
  | [] => []
  | save :: rest => disk.save save :: (disk.save save).trail rest

theorem Disk.trail_append (disk : Disk) (saves more : List Save) :
    disk.trail (saves ++ more) = disk.trail saves ++ (saves.foldl save disk).trail more := by
  induction saves generalizing disk with
  | nil => rfl
  | cons first rest ih =>
    rw [List.cons_append, trail, trail, ih, List.cons_append, List.foldl_cons]

theorem Disk.foldl_save_eq (disk : Disk) (saves : List Save) :
    saves.foldl save disk = (disk.trail saves).getLastD disk := by
  induction saves generalizing disk with
  | nil => rfl
  | cons first rest ih => rw [List.foldl_cons, ih, trail, List.getLastD_cons]

/-- Every part of the saves leads to one of the contents. -/
theorem Disk.mem_trail_of_initial (disk : Disk) {saves part : List Save}
    (initial : part <+: saves) :
    part.foldl save disk = disk ∨ part.foldl save disk ∈ disk.trail saves := by
  obtain ⟨rest, rfl⟩ := initial
  cases part using List.reverseRecOn with
  | nil => exact .inl rfl
  | append_singleton first last =>
    refine .inr ?_
    rw [Disk.trail_append, Disk.trail_append, List.foldl_append]
    exact List.mem_append_left _ (List.mem_append_right _ List.mem_cons_self)

namespace FileFormats

variable (formats : FileFormats)

def encoding : Encoding Save StoredFile UInt8 where
  target
    | .persist _ => .state
    | .saveSnapshot _ => .snapshot
  chunks
    | .persist state => formats.state.encode state
    | .saveSnapshot file => formats.snapshot.encode file

/-- `loadState` and `loadSnapshotFile`: no file is fine, one that does not decode is not. -/
def load (version : Version StoredFile UInt8) : Option Disk := do
  let state ← match version .state with
    | none => some none
    | some bytes => (formats.state.decode bytes).map some
  let snapshot ← match version .snapshot with
    | none => some none
    | some bytes => (formats.snapshot.decode bytes).map some
  some { state, snapshot }

/-- The files of a data directory. -/
def files (disk : Disk) : Version StoredFile UInt8
  | .state => disk.state.map fun state => (formats.state.encode state).flatten
  | .snapshot => disk.snapshot.map fun file => (formats.snapshot.encode file).flatten

theorem load_files (disk : Disk) : formats.load (formats.files disk) = some disk := by
  obtain ⟨state, snapshot⟩ := disk
  cases state <;> cases snapshot <;>
    simp [load, files, formats.state.decode_encode, formats.snapshot.decode_encode]

theorem files_save (disk : Disk) (save : Save) :
    formats.files (disk.save save) =
      Version.replace (formats.files disk) (formats.encoding.job save).file := by
  funext target
  cases save <;> cases target <;> rfl

theorem files_saves (disk : Disk) (saves : List Save) :
    formats.files (saves.foldl Disk.save disk) =
      (saves.map fun save => (formats.encoding.job save).file).foldl Version.replace
        (formats.files disk) := by
  induction saves generalizing disk with
  | nil => rfl
  | cons first rest ih => rw [List.foldl_cons, ih, files_save, List.map_cons, List.foldl_cons]

variable {formats}

/-- Files that hold nothing but what has been saved decode. -/
theorem exists_disk {version : Version StoredFile UInt8} {saved : Save → Prop}
    (written : ∀ target bytes, version target = some bytes → ∃ save, saved save ∧
      formats.encoding.target save = target ∧ (formats.encoding.chunks save).flatten = bytes) :
    ∃ disk, formats.load version = some disk ∧
      (∀ state, disk.state = some state → saved (.persist state)) ∧
      ∀ file, disk.snapshot = some file → saved (.saveSnapshot file) := by
  have first : ∃ state : Option PersistedState, version .state =
      state.map (fun state => (formats.state.encode state).flatten) ∧
      ∀ value, state = some value → saved (.persist value) := by
    cases found : version .state with
    | none => exact ⟨none, rfl, nofun⟩
    | some bytes =>
      obtain ⟨save, done, target, rfl⟩ := written .state bytes found
      cases save with
      | persist state =>
        refine ⟨some state, rfl, ?_⟩
        rintro _ ⟨rfl⟩
        exact done
      | saveSnapshot file => cases target
  have second : ∃ snapshot : Option SnapshotFile, version .snapshot =
      snapshot.map (fun file => (formats.snapshot.encode file).flatten) ∧
      ∀ value, snapshot = some value → saved (.saveSnapshot value) := by
    cases found : version .snapshot with
    | none => exact ⟨none, rfl, nofun⟩
    | some bytes =>
      obtain ⟨save, done, target, rfl⟩ := written .snapshot bytes found
      cases save with
      | persist state => cases target
      | saveSnapshot file =>
        refine ⟨some file, rfl, ?_⟩
        rintro _ ⟨rfl⟩
        exact done
  obtain ⟨state, one, saved⟩ := first
  obtain ⟨snapshot, two, saved'⟩ := second
  have same : version = formats.files { state, snapshot } := by
    funext target
    cases target with
    | state => exact one
    | snapshot => exact two
  exact ⟨{ state, snapshot }, same ▸ formats.load_files _, saved, saved'⟩

end FileFormats

/-- Whatever file operations fail, and whenever the process or the power goes down: the files
of the data directory decode, to what `persist` and `saveSnapshot` were given at some time.
A power failure brings back the data directory as it stood at some moment of the run. -/
theorem data_directory_never_torn (formats : FileFormats)
    {moves : List (Move (Storage StoredFile String UInt8) (StorageEvent Save UInt8))}
    {storage : Storage StoredFile String UInt8}
    (trace : (Storage.system dataDir formats.encoding).Trace (fun _ _ => True) {} moves storage) :
    (∃ disk, formats.load (storage.files.current dataDir) = some disk ∧
      (∀ state, disk.state = some state → Storage.Saved moves (.persist state)) ∧
      ∀ file, disk.snapshot = some file → Storage.Saved moves (.saveSnapshot file)) ∧
    ∀ count remains, ∃ seen ∈ System.visited {} moves, ∃ disk,
      formats.load ((storage.files.fail count remains).current dataDir) = some disk ∧
      formats.load (seen.files.current dataDir) = some disk := by
  have traced := Storage.traced_of_run trace
  constructor
  · exact FileFormats.exists_disk (traced.saved _ storage.files.current_mem_versions)
  · intro count remains
    have possible := (traced.sane.files.mem_versions_iff_fail remains).mpr ⟨count, rfl⟩
    obtain ⟨seen, visited, same⟩ := traced.seen _ possible
    obtain ⟨disk, loaded, _⟩ := FileFormats.exists_disk (traced.saved _ possible)
    exact ⟨seen, visited, disk, loaded, same ▸ loaded⟩

section Countable

open KvStore

instance countableUInt8 : Countable UInt8 :=
  Function.Injective.countable (f := UInt8.toNat) fun _ _ => UInt8.toNat_inj.mp

deriving instance Countable for ConfigOp

deriving instance Countable for LogEntry

deriving instance Countable for Log

deriving instance Countable for PersistedState

deriving instance Countable for SnapshotFile

noncomputable def Format.unary (α : Type) [Countable α] : Format α where
  encode value := [KvStore.unary value]
  decode := ofUnary
  decode_encode value := by rw [List.flatten_singleton, ofUnary_unary]

noncomputable def FileFormats.unary : FileFormats := ⟨.unary _, .unary _⟩

end Countable

/-- The node votes in two terms and is cut off while it saves the second vote. -/
def votedAndCutOff : List (StorageEvent Save UInt8) :=
  [.save (.persist ⟨1, "node1", .new⟩)] ++ List.replicate 5 (.operate .success) ++
    [.save (.persist ⟨2, "node2", .new⟩)] ++ List.replicate 3 (.operate .success)

theorem data_directory_never_torn_unary :
    ∃ moves storage, (Storage.system dataDir FileFormats.unary.encoding).Trace
        (fun _ _ => True) {} moves storage ∧ storage.job.isSome = true ∧
      (∃ disk, FileFormats.unary.load (storage.files.current dataDir) = some disk) ∧
      ∃ disk, FileFormats.unary.load ((storage.files.fail 1 fun _ => [0]).current dataDir) =
        some disk := by
  obtain ⟨moves, storage, trace, running⟩ :=
    (Storage.system dataDir FileFormats.unary.encoding).exists_trace (fun _ _ => True) {}
      votedAndCutOff (fun _ storage => storage.job.isSome) (by decide +kernel)
  obtain ⟨⟨disk, loaded, _⟩, failed⟩ := data_directory_never_torn FileFormats.unary trace
  obtain ⟨_, _, disk', loaded', _⟩ := failed 1 fun _ => [0]
  exact ⟨moves, storage, trace, running, ⟨disk, loaded⟩, disk', loaded'⟩

namespace RaftNode

variable {node middle after : RaftNode} {now : Nat} {part : Part} {parts : List Part}

/-- What a handler saves on the way from one state of the node to another. -/
structure Writes (node after : RaftNode) (saves : List Save) : Prop where
  journal : after.journal = node.journal ++ node.disk.trail saves
  disk : after.disk = saves.foldl Disk.save node.disk

theorem Writes.nothing (journal : after.journal = node.journal) (disk : after.disk = node.disk) :
    Writes node after [] :=
  ⟨by rw [journal, Disk.trail, List.append_nil], disk⟩

theorem Writes.trans {saves more : List Save} (first : Writes node middle saves)
    (second : Writes middle after more) : Writes node after (saves ++ more) where
  journal := by rw [second.journal, first.journal, first.disk, Disk.trail_append, List.append_assoc]
  disk := by rw [second.disk, first.disk, List.foldl_append]

theorem Change.writes (change : Change now node part after) : ∃ saves, Writes node after saves := by
  cases change with
  | becomeFollower | grantVote | becomeCandidate | persist => exact ⟨[.persist _], rfl, rfl⟩
  | maybeCommit =>
    obtain ⟨commitIndex, signal, committed⟩ := node.maybeCommit_eq
    rw [committed]
    exact ⟨[], .nothing rfl rfl⟩
  | advanceCommit leaderCommit =>
    obtain ⟨commitIndex, signal, committed⟩ := node.advanceCommit_eq leaderCommit
    rw [committed]
    exact ⟨[], .nothing rfl rfl⟩
  | compact term data ahead =>
    refine ⟨[.saveSnapshot ⟨node.lastApplied, term, data⟩, .persist _], ?_, rfl⟩
    exact List.append_assoc _ _ _
  | install args ahead =>
    refine ⟨[.saveSnapshot ⟨args.lastIncludedIndex, args.lastIncludedTerm, args.data⟩, .persist _],
      ?_, rfl⟩
    exact List.append_assoc _ _ _
  | _ => exact ⟨[], .nothing rfl rfl⟩

theorem Changes.writes (changes : Changes now parts node after) :
    ∃ saves, Writes node after saves :=
  changes.keeps (fun _ => ⟨[], .nothing rfl rfl⟩)
    (fun ⟨_, first⟩ ⟨_, second⟩ => ⟨_, first.trans second⟩) fun _ change => change.writes

end RaftNode

end RaftGo.Raft

namespace RaftGo.KvStore.Process

open Raft Library

variable {codec : Codec} {now : Nat} {process after : Process} {input : Input}

theorem writes_step (stepped : process.step codec now input = some after) :
    ∃ saves, RaftNode.Writes process.node after.node saves := by
  by_cases elsewhere : ∀ branch, input ≠ .applyLoop branch
  · exact (changes_step elsewhere stepped).writes
  · obtain ⟨branch, rfl⟩ := not_forall_not.mp elsewhere
    have moved := nodeStep_of_step stepped
    generalize after.node = node at moved ⊢
    cases moved with
    | idle | receive | takeEntry => exact ⟨[], .nothing rfl rfl⟩
    | configure =>
      obtain ⟨_, _, _, _, _, _, applied⟩ := RaftNode.applyConfigEntry_eq { process.node with
        lastApplied := process.node.lastApplied + 1 } now
        (process.node.log.get (process.node.lastApplied + 1))
      rw [applied]
      exact ⟨[], .nothing rfl rfl⟩

/-- A handler that is cut off after any number of its file operations leaves a data directory
from which the process may start over in the cluster model: the one before, one of those
passed through, or the one after; and it is the one after if it was not cut off. -/
theorem interrupted_handler_disk (formats : FileFormats)
    (stepped : process.step codec now input = some after) :
    ∃ saves, RaftNode.Writes process.node after.node saves ∧
      ∀ fs : FileSystem String UInt8, fs.Sane dataDir →
        fs.current dataDir = formats.files process.node.disk →
        ∀ count, ∃ disk, formats.load (((advance dataDir)^[count]
            (fs, saves.map formats.encoding.job)).1.current dataDir) = some disk ∧
          (disk = process.node.disk ∨ disk ∈ process.node.passing after.node ∨
            disk = after.node.disk) ∧
          (((saves.map formats.encoding.job).map Job.remaining).sum ≤ count →
            disk = after.node.disk) := by
  obtain ⟨saves, writes⟩ := writes_step stepped
  refine ⟨saves, writes, fun fs sane presents count => ?_⟩
  have fresh : ∀ job ∈ saves.map formats.encoding.job, job.stage = .create := by
    intro job member
    obtain ⟨save, _, rfl⟩ := List.mem_map.mp member
    rfl
  obtain ⟨replaced, initial, found, all⟩ := advance_spec sane (saves.map formats.encoding.job)
    (by
      intro job head
      obtain ⟨save, _, rfl⟩ := List.mem_map.mp (List.mem_of_mem_head? head)
      exact ⟨trivial, Nat.succ_pos _⟩)
    (fun job member => fresh job (List.mem_of_mem_tail member)) count
  rw [List.map_map] at initial
  obtain ⟨part, earlier, rfl⟩ := List.prefix_map_iff.mp initial
  refine ⟨part.foldl Disk.save process.node.disk, ?_, ?_, fun enough => ?_⟩
  · rw [found, presents]
    exact (congrArg formats.load (formats.files_saves _ part)).symm.trans (formats.load_files _)
  · have passed : after.node.journal.drop process.node.journal.length =
        process.node.disk.trail saves := by
      rw [writes.journal, List.drop_left]
    rw [RaftNode.passing, passed, writes.disk, Disk.foldl_save_eq _ saves]
    rcases Disk.mem_trail_of_initial process.node.disk earlier with same | member
    · exact .inl same
    · refine .inr ?_
      rcases List.eq_nil_or_concat (process.node.disk.trail saves) with none | ⟨first, last, shape⟩
      · simp [none] at member
      · rw [shape, List.concat_eq_append] at member ⊢
        rw [List.dropLast_concat, List.getLastD_concat]
        simpa using member
  · have length := congrArg List.length (all enough)
    simp only [List.length_map] at length
    rw [earlier.eq_of_length length, writes.disk]

/-- A node that becomes a candidate is cut off after three operations of `persist`. -/
theorem interrupted_handler_disk_candidate :
    ∃ process after : Process, process.step Codec.unary 0 .becomeCandidate = some after ∧
      after.node.disk ≠ process.node.disk ∧ ∃ saves disk,
        RaftNode.Writes process.node after.node saves ∧
        FileFormats.unary.load (((advance dataDir)^[3]
          ({}, saves.map FileFormats.unary.encoding.job)).1.current dataDir) = some disk ∧
        (disk = process.node.disk ∨ disk ∈ process.node.passing after.node ∨
          disk = after.node.disk) := by
  have stepped : (Process.start Codec.unary { id := "node1", peers := ["node2"] } 0 0 {}).step
      Codec.unary 0 .becomeCandidate = some _ := rfl
  obtain ⟨saves, writes, cut⟩ := interrupted_handler_disk FileFormats.unary stepped
  obtain ⟨disk, loaded, known, _⟩ := cut {} .empty (by funext file; cases file <;> rfl) 3
  refine ⟨_, _, stepped, fun same => ?_, saves, disk, writes, loaded, known⟩
  exact Option.some_ne_none _ (congrArg Disk.state same)

end RaftGo.KvStore.Process
