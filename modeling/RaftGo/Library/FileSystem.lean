import Mathlib.Data.List.Infix
import Mathlib.Logic.Function.Basic

/-! Replacing files as a whole. A program writes a file under a temporary name, flushes it
and renames it; a crash of the program loses none of what it has done, a power failure
loses what is not on the medium yet. Data reach the medium in any order, changes of the
directory in the order in which they were made. -/

namespace RaftGo.Library

universe u v w

/-- A file of a directory. -/
structure Inode (β : Type w) where
  bytes : List β := []
  /-- All of it is on the medium. -/
  synced : Bool := false

abbrev Directory (Name : Type v) := Name → Option Nat

/-- A change of the directory. -/
inductive Update (Name : Type v) where
  | link (name : Name) (inode : Nat)
  | unlink (name : Name)
  | rename (source target : Name)

def Update.apply {Name : Type v} [DecidableEq Name] (directory : Directory Name) :
    Update Name → Directory Name
  | .link name inode => Function.update directory name (some inode)
  | .unlink name => Function.update directory name none
  | .rename source target =>
    Function.update (Function.update directory target (directory source)) source none

/-- The names under which files are found and prepared. -/
structure Naming (τ : Type u) (Name : Type v) where
  final : τ → Name
  temporary : τ → Name
  final_injective : Function.Injective final
  disjoint : ∀ target other, final target ≠ temporary other

structure FileSystem (Name : Type v) (β : Type w) where
  inodes : List (Inode β) := []
  /-- The directory on the medium. -/
  durable : Directory Name := fun _ => none
  /-- Changes of the directory that are not on the medium yet, oldest first. -/
  pending : List (Update Name) := []

/-- What stands under the final names. -/
abbrev Version (τ : Type u) (β : Type w) := τ → Option (List β)

namespace FileSystem

variable {τ : Type u} {Name : Type v} {β : Type w}

def contents (inodes : List (Inode β)) (naming : Naming τ Name) (directory : Directory Name) :
    Version τ β := fun target =>
  (directory (naming.final target)).bind fun inode => inodes[inode]?.map Inode.bytes

variable [DecidableEq Name]

section Operations

variable (fs : FileSystem Name β)

/-- The directory as the running system sees it. -/
def directory : Directory Name := fs.pending.foldl Update.apply fs.durable

/-- `open` for writing: an existing file is truncated, otherwise there is a new one. -/
def create (name : Name) : FileSystem Name β × Nat :=
  match fs.directory name with
  | some inode => ({ fs with inodes := fs.inodes.modify inode fun _ => {} }, inode)
  | none => ({ fs with
      inodes := fs.inodes ++ [{}]
      pending := fs.pending ++ [.link name fs.inodes.length] }, fs.inodes.length)

def write (inode : Nat) (chunk : List β) : FileSystem Name β :=
  { fs with inodes := fs.inodes.modify inode fun file => ⟨file.bytes ++ chunk, false⟩ }

def sync (inode : Nat) : FileSystem Name β :=
  { fs with inodes := fs.inodes.modify inode fun file => ⟨file.bytes, true⟩ }

def remove (name : Name) : FileSystem Name β :=
  { fs with pending := fs.pending ++ [.unlink name] }

def rename (source target : Name) : FileSystem Name β :=
  { fs with pending := fs.pending ++ [.rename source target] }

/-- The first so many changes of the directory reach the medium. -/
def settle (count : Nat) : FileSystem Name β :=
  { fs with
    durable := (fs.pending.take count).foldl Update.apply fs.durable
    pending := fs.pending.drop count }

/-- A power failure, after the first so many changes of the directory have reached the
medium: of files that were not flushed anything may be left. -/
def fail (count : Nat) (remains : Nat → List β) : FileSystem Name β where
  inodes := fs.inodes.mapIdx fun inode file =>
    if file.synced then file else ⟨remains inode, true⟩
  durable := (fs.pending.take count).foldl Update.apply fs.durable

variable (naming : Naming τ Name)

/-- What the running system finds under the final names. -/
def current : Version τ β := contents fs.inodes naming fs.directory

/-- What may be found there after a power failure, oldest first. -/
def versions : List (Version τ β) :=
  fs.pending.inits.map fun updates =>
    contents fs.inodes naming (updates.foldl Update.apply fs.durable)

end Operations

variable {fs : FileSystem Name β} {naming : Naming τ Name}

/-- The directory may be found on the medium. -/
def Survives (fs : FileSystem Name β) (directory : Directory Name) : Prop :=
  ∃ updates, updates <+: fs.pending ∧ directory = updates.foldl Update.apply fs.durable

theorem survives_directory (fs : FileSystem Name β) : fs.Survives fs.directory :=
  ⟨fs.pending, List.prefix_refl _, rfl⟩

theorem mem_versions {version : Version τ β} : version ∈ fs.versions naming ↔
    ∃ directory, fs.Survives directory ∧ version = contents fs.inodes naming directory := by
  simp only [versions, Survives, List.mem_map, List.mem_inits]
  constructor
  · rintro ⟨updates, earlier, rfl⟩
    exact ⟨_, ⟨updates, earlier, rfl⟩, rfl⟩
  · rintro ⟨_, ⟨updates, earlier, rfl⟩, rfl⟩
    exact ⟨updates, earlier, rfl⟩

theorem current_mem_versions (fs : FileSystem Name β) : fs.current naming ∈ fs.versions naming :=
  mem_versions.mpr ⟨_, fs.survives_directory, rfl⟩

/-- What reaches the medium makes no difference to the running system. -/
theorem directory_settle (fs : FileSystem Name β) (count : Nat) :
    (fs.settle count).directory = fs.directory := by
  rw [directory, settle, ← List.foldl_append, List.take_append_drop, directory]

section Snoc

variable {inodes : List (Inode β)} {update : Update Name}

theorem survives_snoc {directory : Directory Name} :
    ({ fs with inodes, pending := fs.pending ++ [update] } : FileSystem Name β).Survives directory ↔
      fs.Survives directory ∨ directory = update.apply fs.directory := by
  simp only [Survives, List.prefix_concat_iff]
  constructor
  · rintro ⟨updates, rfl | earlier, rfl⟩
    · exact .inr (by simp [FileSystem.directory])
    · exact .inl ⟨updates, earlier, rfl⟩
  · rintro (⟨updates, earlier, rfl⟩ | rfl)
    · exact ⟨updates, .inr earlier, rfl⟩
    · exact ⟨_, .inl rfl, by simp [FileSystem.directory]⟩

theorem directory_snoc :
    ({ fs with inodes, pending := fs.pending ++ [update] } : FileSystem Name β).directory =
      update.apply fs.directory := by
  simp [directory]

theorem versions_snoc :
    ({ fs with inodes, pending := fs.pending ++ [update] } : FileSystem Name β).versions naming =
      ({ fs with inodes } : FileSystem Name β).versions naming ++
        [contents inodes naming (update.apply fs.directory)] := by
  simp [versions, List.inits_append, FileSystem.directory]

end Snoc

/-- Files under their final names are complete, in every directory that may be found on the
medium, and the files that are being prepared are none of them. -/
structure Sane (naming : Naming τ Name) (fs : FileSystem Name β) : Prop where
  bounded : ∀ directory, fs.Survives directory → ∀ name inode, directory name = some inode →
    inode < fs.inodes.length
  synced : ∀ directory, fs.Survives directory → ∀ target inode,
    directory (naming.final target) = some inode →
      ∃ file, fs.inodes[inode]? = some file ∧ file.synced = true
  apart : ∀ target inode, fs.directory (naming.temporary target) = some inode →
    ∀ directory, fs.Survives directory → ∀ other, directory (naming.final other) ≠ some inode
  single : ∀ directory, fs.Survives directory → ∀ name other inode,
    directory name = some inode → directory other = some inode → name = other

/-- Nothing changes under the final names. -/
structure Keeps (naming : Naming τ Name) (fs after : FileSystem Name β) : Prop where
  current : after.current naming = fs.current naming
  versions : after.versions naming = fs.versions naming ∨
    after.versions naming = fs.versions naming ++ [fs.current naming]

/-- One file is replaced. -/
structure Replaces [DecidableEq τ] (naming : Naming τ Name) (fs : FileSystem Name β) (target : τ)
    (bytes : List β) (after : FileSystem Name β) : Prop where
  current : after.current naming = Function.update (fs.current naming) target (some bytes)
  versions : after.versions naming = fs.versions naming ++ [after.current naming]

theorem Keeps.refl (fs : FileSystem Name β) : Keeps naming fs fs := ⟨rfl, .inl rfl⟩

/-- Where the files under the final names are the same, so is every version. -/
theorem keeps_of_contents {after : FileSystem Name β} (durable : after.durable = fs.durable)
    (pending : after.pending = fs.pending)
    (same : ∀ directory, fs.Survives directory →
      contents after.inodes naming directory = contents fs.inodes naming directory) :
    Keeps naming fs after where
  current := by
    rw [current, current, directory, durable, pending]
    exact same _ fs.survives_directory
  versions := by
    refine .inl ?_
    rw [versions, versions, durable, pending]
    refine List.map_congr_left fun updates member => same _ ⟨updates, ?_, rfl⟩
    exact (List.mem_inits _ _).mp member

namespace Sane

variable {target : τ} {inode : Nat}

theorem empty : Sane naming ({} : FileSystem Name β) := by
  have nothing {directory : Directory Name} (survives : ({} : FileSystem Name β).Survives directory)
      (name : Name) : directory name = none := by
    obtain ⟨updates, none, rfl⟩ := survives
    cases List.prefix_nil.mp none
    rfl
  refine ⟨?_, ?_, ?_, ?_⟩
  · intro directory survives name inode found
    cases (nothing survives name).symm.trans found
  · intro directory survives target inode found
    cases (nothing survives _).symm.trans found
  · intro target inode found
    cases found
  · intro directory survives name other inode found
    cases (nothing survives name).symm.trans found

theorem edit (sane : Sane naming fs) (bound : fs.directory (naming.temporary target) = some inode)
    (change : Inode β → Inode β) :
    Sane naming { fs with inodes := fs.inodes.modify inode change } ∧
      Keeps naming fs { fs with inodes := fs.inodes.modify inode change } := by
  have elsewhere {directory : Directory Name} (survives : fs.Survives directory) {other : τ}
      {position : Nat} (found : directory (naming.final other) = some position) :
      (fs.inodes.modify inode change)[position]? = fs.inodes[position]? := by
    refine List.getElem?_modify_ne _ _ ?_
    rintro rfl
    exact sane.apart target inode bound directory survives other found
  refine ⟨⟨?_, ?_, sane.apart, sane.single⟩, keeps_of_contents rfl rfl ?_⟩
  · intro directory survives name position found
    simpa using sane.bounded directory survives name position found
  · intro directory survives other position found
    obtain ⟨file, present, synced⟩ := sane.synced directory survives other position found
    exact ⟨file, (elsewhere survives found).trans present, synced⟩
  · intro directory survives
    funext other
    cases found : directory (naming.final other) with
    | none => simp [contents, found]
    | some position => simp [contents, found, elsewhere survives found]

/-- The directory changes under a temporary name only, where at most a new file appears. -/
theorem touch (sane : Sane naming fs) (target : τ) {update : Update Name} {extra : List (Inode β)}
    (finals : ∀ other, update.apply fs.directory (naming.final other) =
      fs.directory (naming.final other))
    (names : ∀ name position, update.apply fs.directory name = some position →
      fs.directory name = some position ∨ name = naming.temporary target ∧
        position = fs.inodes.length ∧ position < (fs.inodes ++ extra).length) :
    Sane naming { fs with
      inodes := fs.inodes ++ extra
      pending := fs.pending ++ [update] } ∧
    Keeps naming fs { fs with
      inodes := fs.inodes ++ extra
      pending := fs.pending ++ [update] } := by
  have older {directory : Directory Name} (survives : fs.Survives directory) {name : Name}
      {position : Nat} (found : directory name = some position) :
      (fs.inodes ++ extra)[position]? = fs.inodes[position]? :=
    List.getElem?_append_left (sane.bounded directory survives name position found)
  have fresh {directory : Directory Name} (survives : fs.Survives directory) (name : Name) :
      directory name ≠ some fs.inodes.length := by
    intro found
    exact Nat.lt_irrefl _ (sane.bounded directory survives name _ found)
  have kept {directory : Directory Name} (survives : ({ fs with
        inodes := fs.inodes ++ extra
        pending := fs.pending ++ [update] } : FileSystem Name β).Survives directory) {other : τ}
      {position : Nat} (found : directory (naming.final other) = some position) :
      ∃ directory, fs.Survives directory ∧ directory (naming.final other) = some position := by
    rcases survives_snoc.mp survives with before | rfl
    · exact ⟨directory, before, found⟩
    · exact ⟨_, fs.survives_directory, (finals other).symm.trans found⟩
  have same {directory : Directory Name} (survives : fs.Survives directory) :
      contents (fs.inodes ++ extra) naming directory = contents fs.inodes naming directory := by
    funext other
    cases found : directory (naming.final other) with
    | none => simp [contents, found]
    | some position => simp [contents, found, older survives found]
  have now : contents (fs.inodes ++ extra) naming (update.apply fs.directory) =
      fs.current naming := by
    rw [current, ← same fs.survives_directory]
    funext other
    rw [contents, finals other]
    rfl
  refine ⟨⟨?_, ?_, ?_, ?_⟩, ?_, .inr ?_⟩
  · intro directory survives name position found
    have longer : position < fs.inodes.length → position < (fs.inodes ++ extra).length := by
      rw [List.length_append]
      omega
    rcases survives_snoc.mp survives with before | rfl
    · exact longer (sane.bounded directory before name position found)
    · rcases names name position found with held | ⟨_, _, inside⟩
      · exact longer (sane.bounded _ fs.survives_directory name position held)
      · exact inside
  · intro directory survives other position found
    obtain ⟨directory, before, found⟩ := kept survives found
    obtain ⟨file, present, synced⟩ := sane.synced directory before other position found
    exact ⟨file, (older before found).trans present, synced⟩
  · intro other position found directory survives final there
    obtain ⟨directory, before, there⟩ := kept survives there
    rw [directory_snoc] at found
    rcases names _ _ found with held | ⟨_, rfl, _⟩
    · exact sane.apart other position held directory before final there
    · exact fresh before _ there
  · intro directory survives name other position found found'
    rcases survives_snoc.mp survives with before | rfl
    · exact sane.single directory before name other position found found'
    · rcases names _ _ found with held | ⟨here, rfl, _⟩ <;>
        rcases names _ _ found' with held' | ⟨here', _, _⟩
      · exact sane.single _ fs.survives_directory name other position held held'
      · subst position
        exact absurd held (fresh fs.survives_directory name)
      · exact absurd held' (fresh fs.survives_directory other)
      · exact here.trans here'.symm
  · rw [current, directory_snoc, now]
  · rw [versions_snoc, now]
    congr 1
    refine List.map_congr_left fun updates member => same ⟨updates, ?_, rfl⟩
    exact (List.mem_inits _ _).mp member

theorem create (sane : Sane naming fs) (target : τ) :
    Sane naming (fs.create (naming.temporary target)).1 ∧
      Keeps naming fs (fs.create (naming.temporary target)).1 := by
  unfold FileSystem.create
  split
  · rename_i inode found
    exact sane.edit found fun _ => {}
  · refine sane.touch target ?_ ?_
    · exact fun other => Function.update_of_ne (naming.disjoint other target) _ _
    · intro name position found
      simp only [Update.apply, Function.update_apply] at found
      split at found
      · rename_i here
        cases found
        exact .inr ⟨here, rfl, by simp⟩
      · exact .inl found

theorem remove (sane : Sane naming fs) (target : τ) :
    Sane naming (fs.remove (naming.temporary target)) ∧
      Keeps naming fs (fs.remove (naming.temporary target)) := by
  have touched := @touch _ _ _ _ fs naming sane target (.unlink (naming.temporary target)) []
    (fun other => Function.update_of_ne (naming.disjoint other target) _ _)
    (by
      intro name position found
      simp only [Update.apply, Function.update_apply] at found
      split at found
      · cases found
      · exact .inl found)
  rwa [List.append_nil] at touched

/-- A complete and flushed file takes the place of the one under its final name. -/
theorem rename [DecidableEq τ] (sane : Sane naming fs) {file : Inode β}
    (bound : fs.directory (naming.temporary target) = some inode)
    (present : fs.inodes[inode]? = some file) (synced : file.synced = true) :
    Sane naming (fs.rename (naming.temporary target) (naming.final target)) ∧
      Replaces naming fs target file.bytes
        (fs.rename (naming.temporary target) (naming.final target)) := by
  have renamed (name : Name) : (Update.rename (naming.temporary target)
      (naming.final target)).apply fs.directory name =
        if name = naming.temporary target then none
        else if name = naming.final target then some inode else fs.directory name := by
    simp only [Update.apply, Function.update_apply, bound]
  have finals (other : τ) : (Update.rename (naming.temporary target)
      (naming.final target)).apply fs.directory (naming.final other) =
        if other = target then some inode else fs.directory (naming.final other) := by
    rw [renamed, if_neg (naming.disjoint other target)]
    simp only [naming.final_injective.eq_iff]
  have now : contents fs.inodes naming ((Update.rename (naming.temporary target)
      (naming.final target)).apply fs.directory) =
        Function.update (fs.current naming) target (some file.bytes) := by
    funext other
    rw [contents, finals other, Function.update_apply]
    split
    · simp [present]
    · rfl
  refine ⟨⟨?_, ?_, ?_, ?_⟩, ?_, ?_⟩
  · intro directory survives name position found
    rcases survives_snoc.mp survives with before | rfl
    · exact sane.bounded directory before name position found
    · rw [renamed] at found
      split at found
      · cases found
      · split at found
        · exact sane.bounded _ fs.survives_directory _ position (bound.trans found)
        · exact sane.bounded _ fs.survives_directory name position found
  · intro directory survives other position found
    rcases survives_snoc.mp survives with before | rfl
    · exact sane.synced directory before other position found
    · rw [finals] at found
      split at found
      · cases found
        exact ⟨file, present, synced⟩
      · exact sane.synced _ fs.survives_directory other position found
  · intro other position found directory survives final there
    rw [FileSystem.rename, directory_snoc, renamed] at found
    split at found
    · cases found
    · rename_i elsewhere
      rw [if_neg (naming.disjoint target other).symm] at found
      rcases survives_snoc.mp survives with before | rfl
      · exact sane.apart other position found directory before final there
      · rw [finals] at there
        split at there
        · exact elsewhere
            (sane.single _ fs.survives_directory _ _ position found (bound.trans there))
        · exact sane.apart other position found _ fs.survives_directory final there
  · intro directory survives name other position found found'
    rcases survives_snoc.mp survives with before | rfl
    · exact sane.single directory before name other position found found'
    have origin {name : Name} (found : (Update.rename (naming.temporary target)
        (naming.final target)).apply fs.directory name = some position) :
        name = naming.final target ∧ position = inode ∨
          name ≠ naming.temporary target ∧ fs.directory name = some position := by
      rw [renamed] at found
      split at found
      · cases found
      · rename_i away
        split at found
        · rename_i here
          exact .inl ⟨here, (Option.some.inj found).symm⟩
        · exact .inr ⟨away, found⟩
    have alone {name : Name} (away : name ≠ naming.temporary target) :
        fs.directory name ≠ some inode := fun held =>
      away (sane.single _ fs.survives_directory _ _ inode held bound)
    rcases origin found with ⟨rfl, rfl⟩ | ⟨away, held⟩ <;>
      rcases origin found' with ⟨rfl, same⟩ | ⟨away', held'⟩
    · rfl
    · exact absurd held' (alone away')
    · exact absurd (same ▸ held) (alone away)
    · exact sane.single _ fs.survives_directory name other position held held'
  · rw [current, FileSystem.rename, directory_snoc, now]
  · rw [current, FileSystem.rename, versions_snoc, directory_snoc, now]

theorem settle (sane : Sane naming fs) (count : Nat) :
    Sane naming (fs.settle count) ∧
      (fs.settle count).versions naming ⊆ fs.versions naming := by
  have earlier {directory : Directory Name} (survives : (fs.settle count).Survives directory) :
      fs.Survives directory := by
    obtain ⟨updates, older, rfl⟩ := survives
    refine ⟨fs.pending.take count ++ updates, ?_, by simp [FileSystem.settle]⟩
    conv_rhs => rw [← List.take_append_drop count fs.pending]
    exact (List.prefix_append_right_inj _).mpr older
  have seen := fs.directory_settle count
  refine ⟨⟨?_, ?_, ?_, ?_⟩, ?_⟩
  · exact fun directory survives => sane.bounded directory (earlier survives)
  · exact fun directory survives => sane.synced directory (earlier survives)
  · intro target inode bound directory survives
    exact sane.apart target inode (seen ▸ bound) directory (earlier survives)
  · exact fun directory survives => sane.single directory (earlier survives)
  · intro version member
    obtain ⟨directory, survives, rfl⟩ := mem_versions.mp member
    exact mem_versions.mpr ⟨directory, earlier survives, rfl⟩

/-- After a power failure one of the versions is found, and it is all that is left. -/
theorem fail (sane : Sane naming fs) (count : Nat) (remains : Nat → List β) :
    Sane naming (fs.fail count remains) ∧
      (fs.fail count remains).current naming =
        contents fs.inodes naming ((fs.pending.take count).foldl Update.apply fs.durable) ∧
      (fs.fail count remains).versions naming = [(fs.fail count remains).current naming] := by
  have survived : fs.Survives (fs.fail count remains).durable :=
    ⟨fs.pending.take count, List.take_prefix _ _, rfl⟩
  have only {directory : Directory Name}
      (survives : (fs.fail count remains).Survives directory) :
      directory = (fs.fail count remains).durable := by
    obtain ⟨updates, none, rfl⟩ := survives
    cases List.prefix_nil.mp none
    rfl
  have intact {target : τ} {inode : Nat}
      (found : (fs.fail count remains).durable (naming.final target) = some inode) :
      ∃ file, fs.inodes[inode]? = some file ∧ file.synced = true ∧
        (fs.fail count remains).inodes[inode]? = some file := by
    obtain ⟨file, present, synced⟩ := sane.synced _ survived target inode found
    exact ⟨file, present, synced, by simp [FileSystem.fail, present, synced]⟩
  refine ⟨⟨?_, ?_, ?_, ?_⟩, ?_, rfl⟩
  · intro directory survives name inode found
    have inside := sane.bounded _ survived name inode (only survives ▸ found)
    simpa [FileSystem.fail] using inside
  · intro directory survives target inode found
    obtain ⟨file, _, synced, present⟩ := intact (only survives ▸ found)
    exact ⟨file, present, synced⟩
  · intro target inode bound directory survives other found
    rw [only survives] at found
    exact naming.disjoint other target (sane.single _ survived _ _ inode found bound)
  · intro directory survives name other inode found found'
    rw [only survives] at found found'
    exact sane.single _ survived name other inode found found'
  · funext target
    change contents _ naming (fs.fail count remains).durable target =
      contents _ naming (fs.fail count remains).durable target
    cases found : (fs.fail count remains).durable (naming.final target) with
    | none => simp [contents, found]
    | some inode =>
      obtain ⟨file, before, _, after⟩ := intact found
      simp [contents, found, before, after]

/-- The versions are exactly what a power failure can leave behind. -/
theorem mem_versions_iff_fail (sane : Sane naming fs) {version : Version τ β}
    (remains : Nat → List β) : version ∈ fs.versions naming ↔
      ∃ count, (fs.fail count remains).current naming = version := by
  constructor
  · intro member
    obtain ⟨directory, ⟨updates, earlier, rfl⟩, rfl⟩ := mem_versions.mp member
    refine ⟨updates.length, ?_⟩
    rw [(sane.fail updates.length remains).2.1, ← List.prefix_iff_eq_take.mp earlier]
  · rintro ⟨count, rfl⟩
    rw [(sane.fail count remains).2.1]
    exact mem_versions.mpr ⟨_, ⟨_, List.take_prefix count _, rfl⟩, rfl⟩

end Sane

end FileSystem

end RaftGo.Library
