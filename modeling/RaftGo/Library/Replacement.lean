import Mathlib.Algebra.GroupWithZero.Nat
import RaftGo.Library.FileSystem
import RaftGo.Library.System

/-! The routine that replaces a file: prepare it under a temporary name, flush it, rename it.
Whatever fails and whenever the program or the power goes down, the files under the final
names are those of some moment of the past, all of them complete. -/

namespace RaftGo.Library

universe u v w

variable {τ : Type u} {Name : Type v} {β : Type w} [DecidableEq Name]

/-- How a file operation ends. A write that fails may have got through in part. -/
inductive Outcome where
  | success
  | failure (written : Nat)

/-- The operation to be done next. -/
inductive Stage (β : Type w) where
  | create
  | write (inode : Nat) (rest : List (List β))
  | sync (inode : Nat)
  | rename
  | remove
  | finished (ok : Bool)

/-- A file to be replaced, and how far that has got. -/
structure Job (τ : Type u) (β : Type w) where
  target : τ
  chunks : List (List β)
  stage : Stage β := .create

namespace Job

variable (naming : Naming τ Name) (fs : FileSystem Name β) (job : Job τ β)

def step (outcome : Outcome) : FileSystem Name β × Job τ β :=
  match job.stage, outcome with
  | .create, .success =>
    let opened := fs.create (naming.temporary job.target)
    (opened.1, { job with stage := .write opened.2 job.chunks })
  | .create, .failure _ => (fs, { job with stage := .finished false })
  | .write inode [], _ => (fs, { job with stage := .sync inode })
  | .write inode (chunk :: rest), .success =>
    (fs.write inode chunk, { job with stage := .write inode rest })
  | .write inode (chunk :: _), .failure written =>
    (fs.write inode (chunk.take written), { job with stage := .remove })
  | .sync inode, .success => (fs.sync inode, { job with stage := .rename })
  | .sync _, .failure _ => (fs, { job with stage := .remove })
  | .rename, .success =>
    (fs.rename (naming.temporary job.target) (naming.final job.target),
      { job with stage := .finished true })
  | .rename, .failure _ => (fs, { job with stage := .finished false })
  | .remove, .success =>
    (fs.remove (naming.temporary job.target), { job with stage := .finished false })
  | .remove, .failure _ => (fs, { job with stage := .finished false })
  | .finished _, _ => (fs, job)

/-- The file that is being prepared holds the inode's bytes. -/
def Holds (inode : Nat) (file : Inode β) : Prop :=
  fs.directory (naming.temporary job.target) = some inode ∧ fs.inodes[inode]? = some file

/-- What has been written so far is the first part of what is to be written. -/
def Ready : Prop :=
  match job.stage with
  | .write inode rest => ∃ file, job.Holds naming fs inode file ∧
      file.bytes ++ rest.flatten = job.chunks.flatten
  | .sync inode => ∃ file, job.Holds naming fs inode file ∧ file.bytes = job.chunks.flatten
  | .rename => ∃ inode file, job.Holds naming fs inode file ∧
      file.bytes = job.chunks.flatten ∧ file.synced = true
  | .create | .remove | .finished _ => True

end Job

namespace Job

variable {naming : Naming τ Name} {fs : FileSystem Name β} {job : Job τ β}

theorem holds_create (sane : fs.Sane naming) :
    job.Holds naming (fs.create (naming.temporary job.target)).1
      (fs.create (naming.temporary job.target)).2 {} := by
  unfold FileSystem.create
  split
  · rename_i inode found
    have inside := sane.bounded _ fs.survives_directory _ inode found
    exact ⟨found, by simp [inside]⟩
  · exact ⟨by simp [FileSystem.directory, Update.apply], by simp⟩

theorem Holds.edit {inode : Nat} {file : Inode β} (holds : job.Holds naming fs inode file)
    (change : Inode β → Inode β) :
    job.Holds naming { fs with inodes := fs.inodes.modify inode change } inode (change file) :=
  ⟨holds.1, by simp [holds.2]⟩

/-- One operation of the routine leaves the final names alone or, as its last one, has
replaced the file. -/
theorem step_spec [DecidableEq τ] (sane : fs.Sane naming) (ready : job.Ready naming fs)
    (outcome : Outcome) :
    (job.step naming fs outcome).1.Sane naming ∧
      (job.step naming fs outcome).2.Ready naming (job.step naming fs outcome).1 ∧
      (fs.Keeps naming (job.step naming fs outcome).1 ∨
        (job.step naming fs outcome).2 = { job with stage := .finished true } ∧
          fs.Replaces naming job.target job.chunks.flatten (job.step naming fs outcome).1) := by
  obtain ⟨target, chunks, stage⟩ := job
  cases stage with
  | create =>
    cases outcome with
    | success =>
      obtain ⟨sane', keeps⟩ := sane.create target
      exact ⟨sane', ⟨{}, holds_create sane, rfl⟩, .inl keeps⟩
    | failure written => exact ⟨sane, trivial, .inl (.refl fs)⟩
  | write inode rest =>
    obtain ⟨file, holds, written⟩ := ready
    cases rest with
    | nil =>
      rw [List.flatten_nil, List.append_nil] at written
      exact ⟨sane, ⟨file, holds, written⟩, .inl (.refl fs)⟩
    | cons chunk rest =>
      cases outcome with
      | success =>
        obtain ⟨sane', keeps⟩ := sane.edit holds.1 fun file => ⟨file.bytes ++ chunk, false⟩
        rw [List.flatten_cons, ← List.append_assoc] at written
        exact ⟨sane', ⟨_, holds.edit _, written⟩, .inl keeps⟩
      | failure part =>
        obtain ⟨sane', keeps⟩ := sane.edit holds.1 fun file =>
          ⟨file.bytes ++ chunk.take part, false⟩
        exact ⟨sane', trivial, .inl keeps⟩
  | sync inode =>
    obtain ⟨file, holds, written⟩ := ready
    cases outcome with
    | success =>
      obtain ⟨sane', keeps⟩ := sane.edit holds.1 fun file => ⟨file.bytes, true⟩
      exact ⟨sane', ⟨inode, _, holds.edit _, written, rfl⟩, .inl keeps⟩
    | failure part => exact ⟨sane, trivial, .inl (.refl fs)⟩
  | rename =>
    obtain ⟨inode, file, holds, written, synced⟩ := ready
    cases outcome with
    | success =>
      obtain ⟨sane', replaces⟩ := sane.rename holds.1 holds.2 synced
      exact ⟨sane', trivial, .inr ⟨rfl, written ▸ replaces⟩⟩
    | failure part => exact ⟨sane, trivial, .inl (.refl fs)⟩
  | remove =>
    cases outcome with
    | success =>
      obtain ⟨sane', keeps⟩ := sane.remove target
      exact ⟨sane', trivial, .inl keeps⟩
    | failure part => exact ⟨sane, trivial, .inl (.refl fs)⟩
  | finished ok => exact ⟨sane, trivial, .inl (.refl fs)⟩

theorem Ready.settle (ready : job.Ready naming fs) (count : Nat) :
    job.Ready naming (fs.settle count) := by
  unfold Ready Holds at ready ⊢
  rw [fs.directory_settle count]
  exact ready

theorem step_same (naming : Naming τ Name) (fs : FileSystem Name β) (job : Job τ β)
    (outcome : Outcome) : (job.step naming fs outcome).2.target = job.target ∧
      (job.step naming fs outcome).2.chunks = job.chunks := by
  unfold step
  split <;> exact ⟨rfl, rfl⟩

end Job

/-- How values are written to files. -/
structure Encoding (Value : Type*) (τ : Type u) (β : Type w) where
  target : Value → τ
  chunks : Value → List (List β)

def Encoding.job {Value : Type*} (encoding : Encoding Value τ β) (value : Value) : Job τ β where
  target := encoding.target value
  chunks := encoding.chunks value

/-- The files of a program and what it is doing with them. -/
structure Storage (τ : Type u) (Name : Type v) (β : Type w) where
  files : FileSystem Name β := {}
  job : Option (Job τ β) := none

/-- What can happen to the files. -/
inductive StorageEvent (Value : Type*) (β : Type w) where
  | save (value : Value)
  | operate (outcome : Outcome)
  /-- Changes of the directory reach the medium. -/
  | settle (count : Nat)
  /-- The program goes down. -/
  | crash
  /-- The power goes down. -/
  | fail (count : Nat) (remains : Nat → List β)

namespace Storage

variable {Value : Type*}

/-- A finished job is not kept. -/
def resume (files : FileSystem Name β) (job : Job τ β) : Storage τ Name β where
  files := files
  job := match job.stage with
    | .finished _ => none
    | _ => some job

def system (naming : Naming τ Name) (encoding : Encoding Value τ β) :
    System (Storage τ Name β) (StorageEvent Value β) where
  step storage
    | .save value =>
      match storage.job with
      | none => some { storage with job := some (encoding.job value) }
      | some _ => none
    | .operate outcome => storage.job.map fun job =>
        let stepped := job.step naming storage.files outcome
        resume stepped.1 stepped.2
    | .settle count => some { storage with files := storage.files.settle count }
    | .crash => some { storage with job := none }
    | .fail count remains => some { files := storage.files.fail count remains }

structure Sane (naming : Naming τ Name) (storage : Storage τ Name β) : Prop where
  files : storage.files.Sane naming
  job : ∀ job, storage.job = some job → job.Ready naming storage.files

theorem Sane.empty {naming : Naming τ Name} : Sane naming ({} : Storage τ Name β) :=
  ⟨.empty, nofun⟩

variable [DecidableEq τ] {naming : Naming τ Name} {encoding : Encoding Value τ β}
  {storage next : Storage τ Name β} {event : StorageEvent Value β}

/-- What an event does to the files under the final names. -/
inductive Effect (naming : Naming τ Name) (storage next : Storage τ Name β) : Prop where
  | keeps (same : storage.files.Keeps naming next.files)
  | replaces (job : Job τ β) (running : storage.job = some job)
      (replaced : storage.files.Replaces naming job.target job.chunks.flatten next.files)
  | settles (versions : next.files.versions naming ⊆ storage.files.versions naming)
  | fails (found : next.files.current naming ∈ storage.files.versions naming)
      (only : next.files.versions naming = [next.files.current naming])

/-- Every event keeps the files sane and has one of these effects. -/
theorem Sane.step (sane : storage.Sane naming)
    (stepped : (system naming encoding).step storage event = some next) :
    next.Sane naming ∧ Effect naming storage next := by
  cases event with
  | save value =>
    simp only [system] at stepped
    split at stepped
    · cases stepped
      refine ⟨⟨sane.files, ?_⟩, .keeps (.refl _)⟩
      rintro job ⟨rfl⟩
      trivial
    · cases stepped
  | operate outcome =>
    simp only [system, Option.map_eq_some_iff] at stepped
    obtain ⟨job, running, rfl⟩ := stepped
    obtain ⟨sane', ready, effect⟩ := job.step_spec sane.files (sane.job job running) outcome
    refine ⟨⟨sane', ?_⟩, ?_⟩
    · intro other found
      simp only [resume] at found
      split at found
      · cases found
      · exact Option.some.inj found ▸ ready
    · rcases effect with keeps | ⟨_, replaced⟩
      · exact .keeps keeps
      · exact .replaces job running replaced
  | settle count =>
    cases stepped
    obtain ⟨sane', versions⟩ := sane.files.settle count
    exact ⟨⟨sane', fun job running => (sane.job job running).settle count⟩, .settles versions⟩
  | crash =>
    cases stepped
    exact ⟨⟨sane.files, nofun⟩, .keeps (.refl _)⟩
  | fail count remains =>
    cases stepped
    obtain ⟨sane', _, only⟩ := sane.files.fail count remains
    have found := (sane.files.mem_versions_iff_fail remains).mpr ⟨count, rfl⟩
    exact ⟨⟨sane', nofun⟩, .fails found only⟩

/-- The value has been handed over to be saved. -/
def Saved (moves : List (Move (Storage τ Name β) (StorageEvent Value β))) (value : Value) : Prop :=
  ∃ move ∈ moves, move.event = .save value

omit [DecidableEq Name] [DecidableEq τ] in
theorem Saved.snoc {moves : List (Move (Storage τ Name β) (StorageEvent Value β))} {value : Value}
    (saved : Saved moves value) (move : Move (Storage τ Name β) (StorageEvent Value β)) :
    Saved (moves ++ [move]) value := by
  obtain ⟨other, member, taken⟩ := saved
  exact ⟨other, List.mem_append_left _ member, taken⟩

omit [DecidableEq τ] in
theorem job_cases {job : Job τ β}
    (stepped : (system naming encoding).step storage event = some next)
    (running : next.job = some job) :
    (∃ value, event = .save value ∧ job = encoding.job value) ∨
      ∃ before, storage.job = some before ∧ job.target = before.target ∧
        job.chunks = before.chunks := by
  cases event with
  | save value =>
    simp only [system] at stepped
    split at stepped
    · cases stepped
      exact .inl ⟨value, rfl, (Option.some.inj running).symm⟩
    · cases stepped
  | operate outcome =>
    simp only [system, Option.map_eq_some_iff] at stepped
    obtain ⟨before, found, rfl⟩ := stepped
    simp only [resume] at running
    split at running
    · cases running
    · exact .inr ⟨before, found, Option.some.inj running ▸ before.step_same naming _ outcome⟩
  | settle count =>
    cases stepped
    exact .inr ⟨job, running, rfl, rfl⟩
  | crash | fail =>
    cases stepped
    cases running

/-- What a run tells about the files: every version has been the current one, and all it
holds has been handed over to be saved. -/
structure Traced (naming : Naming τ Name) (encoding : Encoding Value τ β)
    (moves : List (Move (Storage τ Name β) (StorageEvent Value β))) (storage : Storage τ Name β) :
    Prop where
  sane : storage.Sane naming
  job : ∀ job, storage.job = some job → ∃ value, Saved moves value ∧
    job.target = encoding.target value ∧ job.chunks = encoding.chunks value
  seen : ∀ version ∈ storage.files.versions naming,
    ∃ seen ∈ System.visited {} moves, seen.files.current naming = version
  saved : ∀ version ∈ storage.files.versions naming, ∀ target bytes,
    version target = some bytes → ∃ value, Saved moves value ∧ encoding.target value = target ∧
      (encoding.chunks value).flatten = bytes

omit [DecidableEq τ] in
theorem Traced.empty : Traced naming encoding [] ({} : Storage τ Name β) := by
  refine ⟨.empty, nofun, ?_, ?_⟩
  · intro version member
    exact ⟨{}, List.mem_singleton_self _, (List.mem_singleton.mp member).symm⟩
  · intro version member target bytes found
    cases List.mem_singleton.mp member
    cases found

theorem Traced.step {moves : List (Move (Storage τ Name β) (StorageEvent Value β))}
    (traced : Traced naming encoding moves storage)
    (stepped : (system naming encoding).step storage event = some next) :
    Traced naming encoding (moves ++ [⟨storage, event, next⟩]) next := by
  obtain ⟨sane, effect⟩ := traced.sane.step stepped
  -- a version after the step is an old one, or the current one with a file saved by a job
  have origin : ∀ version ∈ next.files.versions naming,
      version ∈ storage.files.versions naming ∨
        version = next.files.current naming ∧ ∃ job, storage.job = some job ∧
          version = Function.update (storage.files.current naming) job.target
            (some job.chunks.flatten) := by
    intro version member
    cases effect with
    | keeps same =>
      rcases same.versions with same | same <;> rw [same] at member
      · exact .inl member
      · rcases List.mem_append.mp member with old | new
        · exact .inl old
        · exact .inl (List.mem_singleton.mp new ▸ storage.files.current_mem_versions)
    | replaces job running replaced =>
      rw [replaced.versions] at member
      rcases List.mem_append.mp member with old | new
      · exact .inl old
      · have same := List.mem_singleton.mp new
        exact .inr ⟨same, job, running, same.trans replaced.current⟩
    | settles versions => exact .inl (versions member)
    | fails found only =>
      rw [only] at member
      exact .inl (List.mem_singleton.mp member ▸ found)
  refine ⟨sane, ?_, ?_, ?_⟩
  · intro job running
    rcases job_cases stepped running with ⟨value, rfl, rfl⟩ | ⟨before, found, target, chunks⟩
    · exact ⟨value, ⟨_, List.mem_append_right _ (List.mem_singleton_self _), rfl⟩, rfl, rfl⟩
    · obtain ⟨value, saved, target', chunks'⟩ := traced.job before found
      exact ⟨value, saved.snoc _, target.trans target', chunks.trans chunks'⟩
  · intro version member
    rw [System.visited, List.map_append, ← List.cons_append]
    rcases origin version member with old | ⟨now, _⟩
    · obtain ⟨seen, visited, same⟩ := traced.seen version old
      exact ⟨seen, List.mem_append_left _ visited, same⟩
    · exact ⟨next, List.mem_append_right _ (List.mem_singleton_self _), now.symm⟩
  · intro version member target bytes found
    rcases origin version member with old | ⟨_, job, running, rfl⟩
    · obtain ⟨value, saved, rest⟩ := traced.saved version old target bytes found
      exact ⟨value, saved.snoc _, rest⟩
    · rw [Function.update_apply] at found
      split at found
      · rename_i here
        obtain ⟨value, saved, target', chunks⟩ := traced.job job running
        refine ⟨value, saved.snoc _, target'.symm.trans here.symm, ?_⟩
        rw [← chunks]
        exact Option.some.inj found
      · obtain ⟨value, saved, rest⟩ := traced.saved _ storage.files.current_mem_versions target
          bytes found
        exact ⟨value, saved.snoc _, rest⟩

theorem traced_of_run {allowed : Storage τ Name β → StorageEvent Value β → Prop}
    {moves : List (Move (Storage τ Name β) (StorageEvent Value β))}
    (trace : (system naming encoding).Trace allowed {} moves storage) :
    Traced naming encoding moves storage :=
  trace.record (Traced naming encoding) .empty fun _ _ _ _ traced _ stepped => traced.step stepped

end Storage

section Undisturbed

variable (naming : Naming τ Name)

/-- The next operation, with files replaced one after the other and nothing going wrong. -/
def advance : FileSystem Name β × List (Job τ β) → FileSystem Name β × List (Job τ β)
  | (fs, []) => (fs, [])
  | (fs, job :: rest) =>
    let stepped := job.step naming fs .success
    match stepped.2.stage with
    | .finished _ => (stepped.1, rest)
    | _ => (stepped.1, stepped.2 :: rest)

/-- The number of operations a job still takes; none if it has been given up. -/
def Job.remaining (job : Job τ β) : Nat :=
  match job.stage with
  | .create => job.chunks.length + 4
  | .write _ rest => rest.length + 3
  | .sync _ => 2
  | .rename => 1
  | .remove | .finished _ => 0

/-- What the job is about: a file and its new content. -/
def Job.file (job : Job τ β) : τ × List β := (job.target, job.chunks.flatten)

variable [DecidableEq τ]

def Version.replace (version : Version τ β) (file : τ × List β) : Version τ β :=
  Function.update version file.1 (some file.2)

variable {naming} {fs : FileSystem Name β} {job : Job τ β}

theorem advance_cases (sane : fs.Sane naming) (ready : job.Ready naming fs)
    (running : 0 < job.remaining) (rest : List (Job τ β)) :
    ∃ after, after.Sane naming ∧
      ((∃ later, advance naming (fs, job :: rest) = (after, later :: rest) ∧
          later.Ready naming after ∧ 0 < later.remaining ∧
          later.remaining + 1 = job.remaining ∧
          later.file = job.file ∧ after.current naming = fs.current naming) ∨
        advance naming (fs, job :: rest) = (after, rest) ∧ job.remaining = 1 ∧
          after.current naming = Version.replace (fs.current naming) job.file) := by
  obtain ⟨sane', ready', effect⟩ := job.step_spec sane ready .success
  obtain ⟨target, chunks, stage⟩ := job
  refine ⟨_, sane', ?_⟩
  cases stage with
  | create =>
    rcases effect with keeps | ⟨finished, _⟩
    · exact .inl ⟨_, rfl, ready', Nat.succ_pos _, rfl, rfl, keeps.current⟩
    · cases finished
  | write inode chunks =>
    rcases effect with keeps | ⟨finished, _⟩
    · cases chunks with
      | nil => exact .inl ⟨_, rfl, ready', Nat.succ_pos _, rfl, rfl, keeps.current⟩
      | cons chunk chunks =>
        refine .inl ⟨_, rfl, ready', Nat.succ_pos _, ?_, rfl, keeps.current⟩
        simp only [Job.remaining, Job.step, List.length_cons]
    · cases chunks <;> cases finished
  | sync inode =>
    rcases effect with keeps | ⟨finished, _⟩
    · exact .inl ⟨_, rfl, ready', Nat.succ_pos _, rfl, rfl, keeps.current⟩
    · cases finished
  | rename =>
    obtain ⟨inode, file, holds, written, synced⟩ := ready
    have replaced := (sane.rename holds.1 holds.2 synced).2.current
    rw [written] at replaced
    exact .inr ⟨rfl, rfl, replaced⟩
  | remove | finished => cases running

/-- After any number of operations the first few of the files have been replaced, and after
enough of them all. -/
theorem advance_spec (sane : fs.Sane naming) (jobs : List (Job τ β))
    (first : ∀ job ∈ jobs.head?, job.Ready naming fs ∧ 0 < job.remaining)
    (others : ∀ job ∈ jobs.tail, job.stage = .create) (count : Nat) :
    ∃ replaced, replaced <+: jobs.map Job.file ∧
      ((advance naming)^[count] (fs, jobs)).1.current naming =
        replaced.foldl Version.replace (fs.current naming) ∧
      ((jobs.map Job.remaining).sum ≤ count → replaced = jobs.map Job.file) := by
  induction count generalizing fs jobs with
  | zero =>
    refine ⟨[], List.nil_prefix, rfl, fun enough => ?_⟩
    cases jobs with
    | nil => rfl
    | cons job rest =>
      have running := (first job rfl).2
      rw [List.map_cons, List.sum_cons] at enough
      omega
  | succ count ih =>
    rw [Function.iterate_succ_apply]
    cases jobs with
    | nil =>
      obtain ⟨replaced, initial, found, _⟩ := ih sane _ first others
      exact ⟨replaced, initial, found, fun _ => List.prefix_nil.mp initial⟩
    | cons job rest =>
      obtain ⟨ready, running⟩ := first job rfl
      obtain ⟨after, sane', ⟨later, moved, ready', running', shorter, file, same⟩ |
        ⟨moved, last, current⟩⟩ := advance_cases sane ready running rest
      · have first' : ∀ other ∈ (later :: rest).head?, other.Ready naming after ∧
            0 < other.remaining := by
          rintro other ⟨rfl⟩
          exact ⟨ready', running'⟩
        obtain ⟨replaced, initial, found, all⟩ := ih sane' _ first' others
        have files : (later :: rest).map Job.file = (job :: rest).map Job.file := by
          rw [List.map_cons, List.map_cons, file]
        rw [files] at initial all
        refine ⟨replaced, initial, by rw [moved, found, same], fun enough => all ?_⟩
        rw [List.map_cons, List.sum_cons] at enough ⊢
        omega
      · have first' : ∀ other ∈ rest.head?, other.Ready naming after ∧ 0 < other.remaining := by
          intro other found
          have fresh := others other (List.mem_of_mem_head? found)
          constructor
          · rw [Job.Ready, fresh]
            trivial
          · rw [Job.remaining, fresh]
            exact Nat.succ_pos _
        obtain ⟨replaced, initial, found, all⟩ := ih sane' rest first'
          fun other member => others other (List.mem_of_mem_tail member)
        refine ⟨job.file :: replaced, (List.prefix_cons_inj _).mpr initial, ?_, fun enough => ?_⟩
        · rw [moved, found, current]
          rfl
        · rw [List.map_cons, List.sum_cons] at enough
          rw [all (by omega), List.map_cons]

end Undisturbed

end RaftGo.Library
