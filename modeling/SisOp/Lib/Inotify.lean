import SisOp.Lib.Map
import SisOp.Lib.Run
import Mathlib.Data.List.Basic

/-!
# Directories and the notices of their changes

The directories of a file system, the operations of its programs on them, and what
one `inotify` descriptor is told: a watch belongs to a directory, wherever that is
moved, and its events wait in a queue of limited length. Every operation is
described by its `Outcome`, the new entries next to the notices that go out.

Main results: `dir_iff_of_quiet` and `entry_of_quiet`, an entry of which no notice
goes out stays as it is, and `last_notice`, the last notice of a directory that is
there is none of its departure.
-/

set_option linter.unusedSectionVars false

namespace Lib.Inotify

open Std

/-- What a directory has under a name; a file counts who has it open for writing. -/
inductive DirEntry (κ : Type*) where
  | file (content : κ) (writers : Nat)
  | dir (inode : Nat)
  deriving DecidableEq

/-- The events about an entry of a directory. -/
inductive Kind where
  | create
  | movedTo
  | movedFrom
  | delete
  | closeWrite
  deriving DecidableEq

/-- The entry is there no more. -/
def Kind.leaves (kind : Kind) : Prop := kind = .movedFrom ∨ kind = .delete

instance : DecidablePred Kind.leaves := fun kind =>
  inferInstanceAs (Decidable (kind = _ ∨ kind = _))

inductive Event (ν : Type*) where
  | entry (wd : Nat) (kind : Kind) (isDir : Bool) (name : ν)
  | deleteSelf (wd : Nat)
  | moveSelf (wd : Nat)
  | ignored (wd : Nat)
  | overflow
  deriving DecidableEq

/-- The directories, by inode, and one descriptor: the watch of each directory and
the events not yet read. `lost` remembers that an event found the queue full. -/
structure Kernel (ν κ : Type*) [Ord ν] where
  dirs : Nat → ExtTreeMap ν (DirEntry κ)
  nextInode : Nat
  watch : Nat → Option Nat
  nextWd : Nat
  queue : List (Event ν)
  limit : Nat
  lost : Bool

/-- What programs do. -/
inductive Op (ν κ : Type*) where
  | mkdir (dir : Nat) (name : ν)
  | rmdir (dir : Nat) (name : ν) (selfFirst : Bool)
  | create (dir : Nat) (name : ν) (content : κ)
  | reopen (dir : Nat) (name : ν)
  | write (dir : Nat) (name : ν) (content : κ)
  | close (dir : Nat) (name : ν)
  | unlink (dir : Nat) (name : ν)
  | rename (dir : Nat) (name : ν) (dir' : Nat) (name' : ν)

/-- What a directory is told about its entries or itself. -/
inductive Notice (ν : Type*) where
  | entry (dir : Nat) (kind : Kind) (isDir : Bool) (name : ν)
  | deleteSelf (dir : Nat)
  | moveSelf (dir : Nat)
  deriving DecidableEq

variable {ν κ : Type*} [Ord ν] [TransOrd ν] [LawfulEqOrd ν] [DecidableEq ν]

def DirEntry.isDir : DirEntry κ → Bool
  | .dir _ => true
  | .file _ _ => false

def DirEntry.content? : DirEntry κ → Option κ
  | .file content _ => some content
  | .dir _ => none

/-- The notices of a directory about itself, when the node is one. -/
def DirEntry.self (node : DirEntry κ) (notice : Nat → Notice ν) : List (Notice ν) :=
  match node with
  | .dir inode => [notice inode]
  | .file _ _ => []

/-- The directories with one entry set or removed. -/
def put (dirs : Nat → ExtTreeMap ν (DirEntry κ)) (dir : Nat) (name : ν)
    (node : Option (DirEntry κ)) :
    Nat → ExtTreeMap ν (DirEntry κ) :=
  Function.update dirs dir <|
    match node with
    | some node => (dirs dir).insert name node
    | none => (dirs dir).erase name

structure Outcome (ν κ : Type*) [Ord ν] where
  dirs : Nat → ExtTreeMap ν (DirEntry κ)
  nextInode : Nat
  notices : List (Notice ν)

namespace Kernel

variable (k : Kernel ν κ)

/-- What an operation does when the system allows it. Directories are not replaced. -/
def outcome : Op ν κ → Option (Outcome ν κ)
  | .mkdir dir name =>
    if dir < k.nextInode ∧ name ∉ k.dirs dir then
      some ⟨put k.dirs dir name (some (.dir k.nextInode)), k.nextInode + 1,
        [.entry dir .create true name]⟩
    else none
  | .rmdir dir name selfFirst =>
    match (k.dirs dir)[name]? with
    | some (.dir inode) =>
      if (k.dirs inode).isEmpty then
        some ⟨put k.dirs dir name none, k.nextInode,
          if selfFirst then [.deleteSelf inode, .entry dir .delete true name]
          else [.entry dir .delete true name, .deleteSelf inode]⟩
      else none
    | _ => none
  | .create dir name content =>
    if dir < k.nextInode ∧ name ∉ k.dirs dir then
      some ⟨put k.dirs dir name (some (.file content 1)), k.nextInode,
        [.entry dir .create false name]⟩
    else none
  | .reopen dir name =>
    match (k.dirs dir)[name]? with
    | some (.file content writers) =>
      some ⟨put k.dirs dir name (some (.file content (writers + 1))), k.nextInode, []⟩
    | _ => none
  | .write dir name content =>
    match (k.dirs dir)[name]? with
    | some (.file _ (writers + 1)) =>
      some ⟨put k.dirs dir name (some (.file content (writers + 1))), k.nextInode, []⟩
    | _ => none
  | .close dir name =>
    match (k.dirs dir)[name]? with
    | some (.file content (writers + 1)) =>
      some ⟨put k.dirs dir name (some (.file content writers)), k.nextInode,
        [.entry dir .closeWrite false name]⟩
    | _ => none
  | .unlink dir name =>
    match (k.dirs dir)[name]? with
    | some (.file _ _) =>
      some ⟨put k.dirs dir name none, k.nextInode, [.entry dir .delete false name]⟩
    | _ => none
  | .rename dir name dir' name' =>
    match (k.dirs dir)[name]? with
    | some node =>
      if dir' < k.nextInode ∧ (dir, name) ≠ (dir', name') ∧
          ((k.dirs dir')[name']?.all fun there => !there.isDir && !node.isDir) then
        some ⟨put (put k.dirs dir name none) dir' name' (some node), k.nextInode,
          .entry dir .movedFrom node.isDir name :: .entry dir' .movedTo node.isDir name' ::
            node.self .moveSelf⟩
      else none
    | none => none

/-- An event like the last one unread is merged with it; one too many is lost. -/
def push (event : Event ν) : Kernel ν κ :=
  if k.queue.getLast? = some event then k
  else if k.queue.length < k.limit then { k with queue := k.queue ++ [event] }
  else
    { k with
      queue := if .overflow ∈ k.queue then k.queue else k.queue ++ [.overflow]
      lost := true }

/-- The events of a notice: those of the directory's watch. A directory that is
deleted loses its watch. -/
def events : Notice ν → List (Event ν)
  | .entry dir kind isDir name =>
    match k.watch dir with
    | some wd => [.entry wd kind isDir name]
    | none => []
  | .deleteSelf dir =>
    match k.watch dir with
    | some wd => [.deleteSelf wd, .ignored wd]
    | none => []
  | .moveSelf dir =>
    match k.watch dir with
    | some wd => [.moveSelf wd]
    | none => []

def apply (op : Op ν κ) : Option (Kernel ν κ) :=
  (k.outcome op).map fun o =>
    { (o.notices.flatMap k.events).foldl push k with
      dirs := o.dirs
      nextInode := o.nextInode
      watch := fun dir => if .deleteSelf dir ∈ o.notices then none else k.watch dir }

/-- `inotify_add_watch`: a directory that is watched keeps its watch. -/
def addWatch (dir : Nat) : Nat × Kernel ν κ :=
  match k.watch dir with
  | some wd => (wd, k)
  | none =>
    (k.nextWd, { k with
      watch := Function.update k.watch dir (some k.nextWd)
      nextWd := k.nextWd + 1 })

/-- `inotify_rm_watch`. -/
def rmWatch (wd : Nat) : Kernel ν κ :=
  if (List.range k.nextInode).any fun dir => k.watch dir = some wd then
    { k.push (.ignored wd) with
      watch := fun dir => if k.watch dir = some wd then none else k.watch dir }
  else k

end Kernel

/-! ## Entries -/

variable {k k' : Kernel ν κ} {op : Op ν κ} {o : Outcome ν κ} {dir inode wd : Nat} {name : ν}

theorem getElem?_put (dirs : Nat → ExtTreeMap ν (DirEntry κ)) (node : Option (DirEntry κ))
    (dir' : Nat) (name' : ν) : (put dirs dir name node dir')[name']? =
      if dir' = dir ∧ name' = name then node else (dirs dir')[name']? := by
  unfold put
  by_cases here : dir' = dir
  · subst here
    rw [Function.update_self]
    cases node with
    | some node => simp only [Map.getElem?_insert, true_and]
    | none => simp only [Map.getElem?_erase, true_and]
  · rw [Function.update_of_ne here, if_neg fun both => here both.1]

/-- Every directory has one entry at most, the top has none. -/
structure Forest (top next : Nat) (dirs : Nat → ExtTreeMap ν (DirEntry κ)) : Prop where
  below : ∀ {dir : Nat} {name : ν} {inode : Nat}, (dirs dir)[name]? = some (DirEntry.dir inode) →
    inode < next ∧ inode ≠ top
  once : ∀ {dir : Nat} {name : ν} {dir' : Nat} {name' : ν} {inode : Nat},
    (dirs dir)[name]? = some (DirEntry.dir inode) →
      (dirs dir')[name']? = some (DirEntry.dir inode) →
      dir = dir' ∧ name = name'

/-- The states there are: a forest, in which each watch is that of one directory. -/
structure Sound (top : Nat) (k : Kernel ν κ) : Prop where
  top_lt : top < k.nextInode
  forest : Forest top k.nextInode k.dirs
  watched : ∀ {dir wd : Nat}, k.watch dir = some wd → dir < k.nextInode ∧ wd < k.nextWd
  apart : ∀ {dir dir' wd : Nat}, k.watch dir = some wd → k.watch dir' = some wd → dir = dir'

/-- What an operation can do. -/
inductive Does (k : Kernel ν κ) : Outcome ν κ → Prop
  | mkdir (dir : Nat) (name : ν) (free : (k.dirs dir)[name]? = none) :
    Does k ⟨put k.dirs dir name (some (.dir k.nextInode)), k.nextInode + 1,
      [.entry dir .create true name]⟩
  | rmdir (dir : Nat) (name : ν) {inode : Nat} (found : (k.dirs dir)[name]? = some (.dir inode))
      (empty : ∀ name : ν, (k.dirs inode)[name]? = none) (selfFirst : Bool) :
    Does k ⟨put k.dirs dir name none, k.nextInode,
      if selfFirst then [.deleteSelf inode, .entry dir .delete true name]
      else [.entry dir .delete true name, .deleteSelf inode]⟩
  | create (dir : Nat) (name : ν) (content : κ) (free : (k.dirs dir)[name]? = none) :
    Does k ⟨put k.dirs dir name (some (.file content 1)), k.nextInode,
      [.entry dir .create false name]⟩
  | rewrite (dir : Nat) (name : ν) {content : κ} {writers : Nat} (content' : κ) (writers' : Nat)
      (found : (k.dirs dir)[name]? = some (.file content writers)) :
    Does k ⟨put k.dirs dir name (some (.file content' (writers' + 1))), k.nextInode, []⟩
  | close (dir : Nat) (name : ν) {content : κ} {writers : Nat}
      (found : (k.dirs dir)[name]? = some (.file content (writers + 1))) :
    Does k ⟨put k.dirs dir name (some (.file content writers)), k.nextInode,
      [.entry dir .closeWrite false name]⟩
  | unlink (dir : Nat) (name : ν) {content : κ} {writers : Nat}
      (found : (k.dirs dir)[name]? = some (.file content writers)) :
    Does k ⟨put k.dirs dir name none, k.nextInode, [.entry dir .delete false name]⟩
  | renameFile (dir : Nat) (name : ν) (dir' : Nat) (name' : ν) {content : κ} {writers : Nat}
      (found : (k.dirs dir)[name]? = some (.file content writers))
      (kept : ∀ inode, (k.dirs dir')[name']? ≠ some (.dir inode)) :
    Does k ⟨put (put k.dirs dir name none) dir' name' (some (.file content writers)),
      k.nextInode, [.entry dir .movedFrom false name, .entry dir' .movedTo false name']⟩
  | renameDir (dir : Nat) (name : ν) (dir' : Nat) (name' : ν) {inode : Nat}
      (found : (k.dirs dir)[name]? = some (.dir inode)) (free : (k.dirs dir')[name']? = none) :
    Does k ⟨put (put k.dirs dir name none) dir' name' (some (.dir inode)), k.nextInode,
      [.entry dir .movedFrom true name, .entry dir' .movedTo true name', .moveSelf inode]⟩

theorem getElem?_of_not_mem {m : ExtTreeMap ν (DirEntry κ)} (absent : name ∉ m) : m[name]? = none :=
  not_ne_iff.mp (mt Map.mem_iff_ne_none.mpr absent)

theorem does_of_outcome (ran : k.outcome op = some o) : Does k o := by
  cases op with
  | mkdir dir name =>
    rw [Kernel.outcome] at ran
    split at ran
    · rename_i allowed
      cases ran
      exact .mkdir dir name (getElem?_of_not_mem allowed.2)
    · cases ran
  | rmdir dir name selfFirst =>
    rw [Kernel.outcome] at ran
    split at ran
    · rename_i inode found
      split at ran
      · rename_i empty
        cases ran
        refine .rmdir dir name found (fun name => ?_) selfFirst
        rw [ExtTreeMap.isEmpty_iff.mp empty, ExtTreeMap.getElem?_empty]
      · cases ran
    · cases ran
  | create dir name content =>
    rw [Kernel.outcome] at ran
    split at ran
    · rename_i allowed
      cases ran
      exact .create dir name content (getElem?_of_not_mem allowed.2)
    · cases ran
  | reopen dir name =>
    rw [Kernel.outcome] at ran
    split at ran
    · rename_i content writers found
      cases ran
      exact .rewrite dir name content writers found
    · cases ran
  | write dir name content' =>
    rw [Kernel.outcome] at ran
    split at ran
    · rename_i content writers found
      cases ran
      exact .rewrite dir name content' writers found
    · cases ran
  | close dir name =>
    rw [Kernel.outcome] at ran
    split at ran
    · rename_i content writers found
      cases ran
      exact .close dir name found
    · cases ran
  | unlink dir name =>
    rw [Kernel.outcome] at ran
    split at ran
    · rename_i content writers found
      cases ran
      exact .unlink dir name found
    · cases ran
  | rename dir name dir' name' =>
    rw [Kernel.outcome] at ran
    split at ran
    · rename_i node found
      split at ran
      · rename_i allowed
        obtain ⟨-, -, target⟩ := allowed
        cases ran
        cases node with
        | file content writers =>
          refine .renameFile dir name dir' name' found fun inode there => ?_
          rw [there] at target
          cases target
        | dir inode =>
          refine .renameDir dir name dir' name' found ?_
          cases there : (k.dirs dir')[name']? with
          | none => rfl
          | some node =>
            rw [there, Option.all_some, DirEntry.isDir, Bool.not_true, Bool.and_false] at target
            cases target
      · cases ran
    · cases ran

/-! ## Entries and their notices -/

/-- The notice of a directory that comes to an entry or leaves it. -/
def Notice.about (dir : Nat) (name : ν) : Notice ν → Option Kind
  | .entry dir' kind true name' => if dir' = dir ∧ name' = name then some kind else none
  | _ => none

theorem Notice.about_eq_some_iff {notice : Notice ν} {kind : Kind} :
    notice.about dir name = some kind ↔ notice = .entry dir kind true name := by
  cases notice with
  | entry dir' kind' isDir name' =>
    cases isDir with
    | true => simp [Notice.about]; grind
    | false => simp [Notice.about]
  | deleteSelf => simp [Notice.about]
  | moveSelf => simp [Notice.about]

/-- Setting an entry that is and stays none of a directory leaves the directories. -/
theorem dir_iff_put {dirs : Nat → ExtTreeMap ν (DirEntry κ)} {dir' : Nat} {name' : ν}
    {node : Option (DirEntry κ)}
    (old : ∀ inode : Nat, (dirs dir')[name']? ≠ some (DirEntry.dir inode))
    (new : ∀ inode : Nat, node ≠ some (DirEntry.dir inode)) :
    (put dirs dir' name' node dir)[name]? = some (DirEntry.dir inode) ↔
      (dirs dir)[name]? = some (DirEntry.dir inode) := by
  rw [getElem?_put]
  split
  · rename_i here
    rw [here.1, here.2]
    exact iff_of_false (new inode) (old inode)
  · rfl

theorem ne_dir_of_none {node : Option (DirEntry κ)} (none_ : node = none) (inode : Nat) :
    node ≠ some (DirEntry.dir inode) := by
  rw [none_]
  exact (Option.some_ne_none _).symm

theorem ne_dir_of_file {node : Option (DirEntry κ)} {content : κ} {writers : Nat}
    (file : node = some (.file content writers)) (inode : Nat) : node ≠ some (.dir inode) := by
  rw [file]
  intro eq
  cases eq

namespace Forest

variable {top next : Nat} {dirs : Nat → ExtTreeMap ν (DirEntry κ)} (forest : Forest top next dirs)
include forest

theorem grow {next' : Nat} (le : next ≤ next') : Forest top next' dirs :=
  ⟨fun there => ⟨Nat.lt_of_lt_of_le (forest.below there).1 le, (forest.below there).2⟩, forest.once⟩

/-- Setting an entry that is none of a directory afterwards. -/
theorem put_file {node : Option (DirEntry κ)}
    (new : ∀ inode : Nat, node ≠ some (DirEntry.dir inode)) :
    Forest top next (put dirs dir name node) := by
  have old : ∀ {dir' : Nat} {name' : ν} {inode : Nat},
      (put dirs dir name node dir')[name']? = some (DirEntry.dir inode) →
      (dirs dir')[name']? = some (DirEntry.dir inode) := by
    intro dir' name' inode there
    rw [getElem?_put] at there
    split at there
    · exact absurd there (new inode)
    · exact there
  exact ⟨fun there => forest.below (old there), fun one two => forest.once (old one) (old two)⟩

/-- A directory that has no entry gets one. -/
theorem link (small : inode < next) (other : inode ≠ top)
    (free : ∀ (dir : Nat) (name : ν), (dirs dir)[name]? ≠ some (DirEntry.dir inode)) :
    Forest top next (put dirs dir name (some (.dir inode))) := by
  have cases_ : ∀ {dir' : Nat} {name' : ν} {inode' : Nat},
      (put dirs dir name (some (.dir inode)) dir')[name']? = some (DirEntry.dir inode') →
        (inode' = inode ∧ dir' = dir ∧ name' = name) ∨
          inode' ≠ inode ∧ (dirs dir')[name']? = some (DirEntry.dir inode') := by
    intro dir' name' inode' there
    rw [getElem?_put] at there
    split at there
    · rename_i here
      cases there
      exact .inl ⟨rfl, here⟩
    · refine .inr ⟨?_, there⟩
      rintro rfl
      exact free dir' name' there
  constructor
  · intro dir' name' inode' there
    rcases cases_ there with ⟨rfl, -⟩ | ⟨-, there⟩
    · exact ⟨small, other⟩
    · exact forest.below there
  · intro dir₁ name₁ dir₂ name₂ inode' one two
    rcases cases_ one with ⟨rfl, rfl, rfl⟩ | ⟨differs, one⟩
    · rcases cases_ two with ⟨-, rfl, rfl⟩ | ⟨differs, -⟩
      · exact ⟨rfl, rfl⟩
      · exact absurd rfl differs
    · rcases cases_ two with ⟨rfl, -, -⟩ | ⟨-, two⟩
      · exact absurd rfl differs
      · exact forest.once one two

end Forest

section Outcomes

variable {top : Nat} {kind : Kind} (does : Does k o)
include does

/-- **Without a notice, a directory stays under its entry, and none comes there.** -/
theorem dir_iff_of_quiet (quiet : ∀ kind, .entry dir kind true name ∉ o.notices) :
    (o.dirs dir)[name]? = some (.dir inode) ↔ (k.dirs dir)[name]? = some (.dir inode) := by
  cases does with
  | mkdir dir' name' free =>
    rw [getElem?_put, if_neg]
    rintro ⟨rfl, rfl⟩
    exact quiet .create (List.mem_singleton_self _)
  | rmdir dir' name' found empty selfFirst =>
    rw [getElem?_put, if_neg]
    rintro ⟨rfl, rfl⟩
    exact quiet .delete (by cases selfFirst <;> simp)
  | create dir' name' content free => exact dir_iff_put (ne_dir_of_none free) (ne_dir_of_file rfl)
  | rewrite dir' name' content' writers' found =>
    exact dir_iff_put (ne_dir_of_file found) (ne_dir_of_file rfl)
  | close dir' name' found => exact dir_iff_put (ne_dir_of_file found) (ne_dir_of_file rfl)
  | unlink dir' name' found => exact dir_iff_put (ne_dir_of_file found) (ne_dir_of_none rfl)
  | renameFile dir' name' dir'' name'' found kept =>
    exact (dir_iff_put (fun inode there => kept inode
      ((dir_iff_put (ne_dir_of_file found) (ne_dir_of_none rfl)).mp there))
      (ne_dir_of_file rfl)).trans (dir_iff_put (ne_dir_of_file found) (ne_dir_of_none rfl))
  | renameDir dir' name' dir'' name'' found free =>
    rw [getElem?_put, getElem?_put, if_neg, if_neg]
    · rintro ⟨rfl, rfl⟩
      exact quiet .movedFrom List.mem_cons_self
    · rintro ⟨rfl, rfl⟩
      exact quiet .movedTo (List.mem_cons_of_mem _ List.mem_cons_self)

/-- **Without a notice, an entry stays, or someone has the file open for writing.** -/
theorem entry_of_quiet
    (quiet : ∀ kind isDir, isDir = true ∨ kind ≠ .create → .entry dir kind isDir name ∉ o.notices) :
    (o.dirs dir)[name]? = (k.dirs dir)[name]? ∨
      ∃ content writers, (o.dirs dir)[name]? = some (.file content (writers + 1)) := by
  cases does with
  | mkdir dir' name' free =>
    rw [getElem?_put, if_neg]
    · exact .inl rfl
    · rintro ⟨rfl, rfl⟩
      exact quiet .create true (.inl rfl) (List.mem_singleton_self _)
  | rmdir dir' name' found empty selfFirst =>
    rw [getElem?_put, if_neg]
    · exact .inl rfl
    · rintro ⟨rfl, rfl⟩
      exact quiet .delete true (.inl rfl) (by cases selfFirst <;> simp)
  | create dir' name' content free =>
    rw [getElem?_put]
    split
    · exact .inr ⟨content, 0, rfl⟩
    · exact .inl rfl
  | rewrite dir' name' content' writers' found =>
    rw [getElem?_put]
    split
    · exact .inr ⟨content', writers', rfl⟩
    · exact .inl rfl
  | close dir' name' found =>
    rw [getElem?_put, if_neg]
    · exact .inl rfl
    · rintro ⟨rfl, rfl⟩
      exact quiet .closeWrite false (.inr (by decide)) (List.mem_singleton_self _)
  | unlink dir' name' found =>
    rw [getElem?_put, if_neg]
    · exact .inl rfl
    · rintro ⟨rfl, rfl⟩
      exact quiet .delete false (.inr (by decide)) (List.mem_singleton_self _)
  | renameFile dir' name' dir'' name'' found kept =>
    rw [getElem?_put, getElem?_put, if_neg, if_neg]
    · exact .inl rfl
    · rintro ⟨rfl, rfl⟩
      exact quiet .movedFrom false (.inr (by decide)) List.mem_cons_self
    · rintro ⟨rfl, rfl⟩
      exact quiet .movedTo false (.inr (by decide)) (List.mem_cons_of_mem _ List.mem_cons_self)
  | renameDir dir' name' dir'' name'' found free =>
    rw [getElem?_put, getElem?_put, if_neg, if_neg]
    · exact .inl rfl
    · rintro ⟨rfl, rfl⟩
      exact quiet .movedFrom true (.inl rfl) List.mem_cons_self
    · rintro ⟨rfl, rfl⟩
      exact quiet .movedTo true (.inl rfl) (List.mem_cons_of_mem _ List.mem_cons_self)

/-- A directory does not leave an entry without a notice. -/
theorem notice_of_left (was : (k.dirs dir)[name]? = some (.dir inode))
    (gone : (o.dirs dir)[name]? ≠ some (.dir inode)) :
    ∃ kind : Kind, kind.leaves ∧ .entry dir kind true name ∈ o.notices := by
  by_contra unseen
  have stays : ∀ kind : Kind, .entry dir kind true name ∈ o.notices → ¬kind.leaves :=
    fun kind mem leaves => unseen ⟨kind, leaves, mem⟩
  have filed := does
  cases does with
  | mkdir dir' name' free =>
    rw [getElem?_put] at gone
    split at gone
    · rename_i here
      rw [here.1, here.2, free] at was
      cases was
    · exact gone was
  | rmdir dir' name' found empty selfFirst =>
    rw [getElem?_put] at gone
    split at gone
    · rename_i here
      rw [here.1, here.2] at stays
      exact stays .delete (by cases selfFirst <;> simp) (.inr rfl)
    · exact gone was
  | renameDir dir' name' dir'' name'' found free =>
    rw [getElem?_put, getElem?_put] at gone
    split at gone
    · rename_i here
      rw [here.1, here.2, free] at was
      cases was
    · split at gone
      · rename_i here
        rw [here.1, here.2] at stays
        exact stays .movedFrom List.mem_cons_self (.inl rfl)
      · exact gone was
  | create | rewrite | close | unlink | renameFile =>
    exact gone ((dir_iff_of_quiet filed fun kind mem => by simp at mem).mpr was)

/-- **The last notice of a directory that is there does not say it left.** -/
theorem last_notice (there : (o.dirs dir)[name]? = some (.dir inode))
    (last : (o.notices.filterMap (Notice.about dir name)).getLast? = some kind) : ¬kind.leaves := by
  have seen : Notice.entry dir kind true name ∈ o.notices := by
    obtain ⟨notice, mem, about⟩ := List.mem_filterMap.mp (List.mem_of_getLast? last)
    rwa [Notice.about_eq_some_iff.mp about] at mem
  cases does with
  | mkdir dir' name' free =>
    cases List.mem_singleton.mp seen
    decide
  | rmdir dir' name' found empty selfFirst =>
    have here : dir = dir' ∧ name = name' := by
      cases selfFirst <;> simp at seen <;> grind
    rw [getElem?_put, if_pos here] at there
    cases there
  | renameDir dir' name' dir'' name'' found free =>
    rw [getElem?_put, getElem?_put] at there
    split at there
    · rename_i here
      rw [here.1, here.2] at last
      simp only [List.filterMap_cons, List.filterMap_nil, Notice.about, and_self, if_true] at last
      split at last <;> cases last <;> exact (by decide : ¬Kind.movedTo.leaves)
    · rename_i elsewhere
      split at there
      · cases there
      · rename_i other
        simp at seen
        grind
  | create | rewrite | close | unlink | renameFile => simp at seen

/-- A directory that is told it is deleted has no entry left, and is told nothing more. -/
theorem deleted_of_notice (sound : Sound top k) (deleted : .deleteSelf inode ∈ o.notices) :
    inode ≠ top ∧ (∀ (dir : Nat) (name : ν), (o.dirs dir)[name]? ≠ some (DirEntry.dir inode)) ∧
      ∀ kind isDir name, .entry inode kind isDir name ∉ o.notices := by
  cases does with
  | @rmdir dir' name' inode' found empty selfFirst =>
    have same : inode = inode' := by cases selfFirst <;> simpa using deleted
    subst same
    refine ⟨(sound.forest.below found).2, fun dir name there => ?_, fun kind isDir name mem => ?_⟩
    · rw [getElem?_put] at there
      split at there
      · cases there
      · rename_i other
        exact other (sound.forest.once there found)
    · have eq : inode = dir' := by cases selfFirst <;> simp at mem <;> exact mem.1
      rw [← eq, empty] at found
      cases found
  | mkdir | create | rewrite | close | unlink | renameFile | renameDir => simp at deleted

/-- Only a directory that has an entry is told that it moved. -/
theorem moved_of_notice (moved : .moveSelf inode ∈ o.notices) :
    ∃ (dir : Nat) (name : ν), (k.dirs dir)[name]? = some (DirEntry.dir inode) := by
  cases does with
  | @renameDir dir' name' dir'' name'' inode' found free =>
    have same : inode = inode' := by simpa using moved
    rw [same]
    exact ⟨dir', name', found⟩
  | rmdir dir' name' found empty selfFirst => cases selfFirst <;> simp at moved
  | mkdir | create | rewrite | close | unlink | renameFile => simp at moved

theorem not_closeWrite : .entry dir .closeWrite true name ∉ o.notices := by
  cases does with
  | rmdir dir' name' found empty selfFirst => cases selfFirst <;> simp
  | mkdir | create | rewrite | close | unlink | renameFile | renameDir => simp

theorem nextInode_le : k.nextInode ≤ o.nextInode := by
  cases does <;> first | exact Nat.le_refl _ | exact Nat.le_succ _

/-- Operations keep the forest. -/
theorem forest_of_does (sound : Sound top k) : Forest top o.nextInode o.dirs := by
  have forest := sound.forest
  cases does with
  | mkdir dir' name' free =>
    refine (forest.grow (Nat.le_succ _)).link (Nat.lt_succ_self _) ?_ ?_
    · exact Ne.symm (Nat.ne_of_lt sound.top_lt)
    · exact fun dir name there => absurd (forest.below there).1 (Nat.lt_irrefl _)
  | rmdir dir' name' found empty selfFirst => exact forest.put_file (ne_dir_of_none rfl)
  | create => exact forest.put_file (ne_dir_of_file rfl)
  | rewrite => exact forest.put_file (ne_dir_of_file rfl)
  | close => exact forest.put_file (ne_dir_of_file rfl)
  | unlink => exact forest.put_file (ne_dir_of_none rfl)
  | renameFile => exact (forest.put_file (ne_dir_of_none rfl)).put_file (ne_dir_of_file rfl)
  | renameDir dir' name' dir'' name'' found free =>
    obtain ⟨small, other⟩ := forest.below found
    refine (forest.put_file (ne_dir_of_none rfl)).link small other fun dir name there => ?_
    rw [getElem?_put] at there
    split at there
    · cases there
    · rename_i elsewhere
      exact elsewhere (forest.once there found)

end Outcomes

/-! ## Events -/

def Event.about (wd : Nat) (name : ν) : Event ν → Option Kind
  | .entry wd' kind true name' => if wd' = wd ∧ name' = name then some kind else none
  | _ => none

/-- What waiting events say about a directory that was under an entry. -/
def news (wd : Nat) (name : ν) (events : List (Event ν)) : List Kind :=
  events.filterMap (Event.about wd name)

variable {event : Event ν} {events read : List (Event ν)} {kind : Kind}

theorem Event.about_eq_some_iff : event.about wd name = some kind ↔
    event = .entry wd kind true name := by
  cases event with
  | entry wd' kind' isDir name' =>
    cases isDir with
    | true => simp [Event.about]; grind
    | false => simp [Event.about]
  | deleteSelf | moveSelf | ignored | overflow => simp [Event.about]

theorem mem_news_iff : kind ∈ news wd name events ↔ .entry wd kind true name ∈ events := by
  rw [news, List.mem_filterMap]
  constructor
  · rintro ⟨event, mem, about⟩
    rwa [← Event.about_eq_some_iff.mp about]
  · exact fun mem => ⟨_, mem, Event.about_eq_some_iff.mpr rfl⟩

theorem news_append (more : List (Event ν)) :
    news wd name (events ++ more) = news wd name events ++ news wd name more :=
  List.filterMap_append

theorem news_cons (wd : Nat) (name : ν) (event : Event ν) (events : List (Event ν)) :
    news wd name (event :: events) = (event.about wd name).toList ++ news wd name events := by
  rw [news, List.filterMap_cons]
  cases event.about wd name <;> rfl

namespace Kernel

/-- An event that is not lost waits, behind those that waited before. -/
theorem queue_push (kept : (k.push event).lost = false) : k.lost = false ∧
    ((k.push event).queue = k.queue ++ [event] ∨
      (k.push event).queue = k.queue ∧ k.queue.getLast? = some event) := by
  unfold push at kept ⊢
  split at kept
  · rename_i merged
    rw [if_pos merged]
    exact ⟨kept, .inr ⟨rfl, merged⟩⟩
  · rename_i fresh
    rw [if_neg fresh]
    split at kept
    · rename_i room
      rw [if_pos room]
      exact ⟨kept, .inl rfl⟩
    · cases kept

theorem mem_push_iff (kept : (k.push event).lost = false) {event' : Event ν} :
    event' ∈ (k.push event).queue ↔ event' ∈ k.queue ∨ event' = event := by
  rcases (queue_push kept).2 with more | ⟨same, last⟩
  · rw [more, List.mem_append, List.mem_singleton]
  · rw [same]
    refine ⟨.inl, fun either => either.elim id ?_⟩
    rintro rfl
    exact List.mem_of_getLast? last

theorem getLast?_news_push (kept : (k.push event).lost = false) :
    (news wd name (read ++ (k.push event).queue)).getLast? =
      (event.about wd name).or (news wd name (read ++ k.queue)).getLast? := by
  have behind : ∀ before : List (Event ν), (news wd name (before ++ [event])).getLast? =
      (event.about wd name).or (news wd name before).getLast? := by
    intro before
    rw [news_append, news_cons, List.getLast?_append]
    cases event.about wd name <;> rfl
  rcases (queue_push kept).2 with more | ⟨same, last⟩
  · rw [more, ← List.append_assoc]
    exact behind _
  · obtain ⟨before, eq⟩ := List.getLast?_eq_some_iff.mp last
    rw [same, eq, ← List.append_assoc, behind]
    cases event.about wd name <;> rfl

theorem lost_pushes (kept : (events.foldl push k).lost = false) : k.lost = false := by
  induction events generalizing k with
  | nil => exact kept
  | cons event events ih => exact (queue_push (ih kept)).1

theorem mem_pushes_iff (kept : (events.foldl push k).lost = false) {event' : Event ν} :
    event' ∈ (events.foldl push k).queue ↔ event' ∈ k.queue ∨ event' ∈ events := by
  induction events generalizing k with
  | nil => simp
  | cons event events ih =>
    rw [List.foldl_cons] at kept ⊢
    rw [ih kept, mem_push_iff (lost_pushes kept), List.mem_cons, or_assoc]

theorem getLast?_news_pushes (kept : (events.foldl push k).lost = false) :
    (news wd name (read ++ (events.foldl push k).queue)).getLast? =
      (news wd name events).getLast?.or (news wd name (read ++ k.queue)).getLast? := by
  induction events generalizing k with
  | nil => rfl
  | cons event events ih =>
    rw [List.foldl_cons] at kept ⊢
    rw [ih kept, getLast?_news_push (lost_pushes kept), news_cons, List.getLast?_append,
      Option.or_assoc]
    cases event.about wd name <;> rfl

theorem push_frame (k : Kernel ν κ) (event : Event ν) : (k.push event).dirs = k.dirs ∧
    (k.push event).nextInode = k.nextInode ∧ (k.push event).watch = k.watch ∧
      (k.push event).nextWd = k.nextWd := by
  unfold push
  split
  · exact ⟨rfl, rfl, rfl, rfl⟩
  · split <;> exact ⟨rfl, rfl, rfl, rfl⟩

theorem pushes_frame (k : Kernel ν κ) (events : List (Event ν)) :
    (events.foldl push k).nextWd = k.nextWd := by
  induction events generalizing k with
  | nil => rfl
  | cons event events ih => rw [List.foldl_cons, ih, (push_frame k event).2.2.2]

end Kernel

/-- The events of a notice. -/
inductive Tells (k : Kernel ν κ) : Notice ν → Event ν → Prop
  | entry {dir wd : Nat} (kind : Kind) (isDir : Bool) (name : ν) (watched : k.watch dir = some wd) :
    Tells k (.entry dir kind isDir name) (.entry wd kind isDir name)
  | deleteSelf {dir wd : Nat} (watched : k.watch dir = some wd) :
    Tells k (.deleteSelf dir) (.deleteSelf wd)
  | ignored {dir wd : Nat} (watched : k.watch dir = some wd) : Tells k (.deleteSelf dir)
      (.ignored wd)
  | moveSelf {dir wd : Nat} (watched : k.watch dir = some wd) : Tells k (.moveSelf dir)
      (.moveSelf wd)

theorem tells_of_mem {notice : Notice ν} (mem : event ∈ k.events notice) :
    Tells k notice event := by
  cases notice with
  | entry dir kind isDir name =>
    simp only [Kernel.events] at mem
    split at mem
    · rename_i watched
      cases List.mem_singleton.mp mem
      exact .entry kind isDir name watched
    · cases mem
  | deleteSelf dir =>
    simp only [Kernel.events] at mem
    split at mem
    · rename_i watched
      rcases List.mem_cons.mp mem with rfl | mem
      · exact .deleteSelf watched
      · cases List.mem_singleton.mp mem
        exact .ignored watched
    · cases mem
  | moveSelf dir =>
    simp only [Kernel.events] at mem
    split at mem
    · rename_i watched
      cases List.mem_singleton.mp mem
      exact .moveSelf watched
    · cases mem

/-! ## What an operation does to the descriptor -/

/-- An operation of which no event is lost. -/
structure Applied (k k' : Kernel ν κ) (o : Outcome ν κ) : Prop where
  does : Does k o
  kept : k.lost = false
  dirs : k'.dirs = o.dirs
  nextInode : k'.nextInode = o.nextInode
  nextWd : k'.nextWd = k.nextWd
  watch : ∀ dir, k'.watch dir = if .deleteSelf dir ∈ o.notices then none else k.watch dir
  queue : ∀ event, event ∈ k'.queue ↔
    event ∈ k.queue ∨ ∃ notice ∈ o.notices, event ∈ k.events notice
  last : ∀ {dir wd : Nat} (name : ν) (read : List (Event ν)), k.watch dir = some wd →
    (news wd name (read ++ k'.queue)).getLast? =
      (o.notices.filterMap (Notice.about dir name)).getLast?.or
        (news wd name (read ++ k.queue)).getLast?

variable {top : Nat}

/-- The events of a watch are those of its directory. -/
theorem news_events (sound : Sound top k) (watched : k.watch dir = some wd)
    (notices : List (Notice ν)) :
    news wd name (notices.flatMap k.events) = notices.filterMap (Notice.about dir name) := by
  induction notices with
  | nil => rfl
  | cons notice notices ih =>
    rw [List.flatMap_cons, news_append, ih, List.filterMap_cons]
    cases notice with
    | entry dir' kind isDir name' =>
      by_cases here : dir' = dir
      · subst here
        cases isDir with
        | true =>
          by_cases same : name' = name <;>
            simp [Kernel.events, watched, news, Event.about, Notice.about, same]
        | false => simp [Kernel.events, watched, news, Event.about, Notice.about]
      · have other : k.watch dir' ≠ some wd := fun w => here (sound.apart w watched)
        have unseen : Notice.about dir name (.entry dir' kind isDir name') = none := by
          cases isDir <;> simp [Notice.about, here]
        rw [unseen, Kernel.events]
        split
        · rename_i wd' watched'
          rw [watched'] at other
          have differs : wd' ≠ wd := fun eq => other (congrArg some eq)
          cases isDir <;> simp [news, Event.about, differs]
        · rfl
    | deleteSelf dir' =>
      rw [Kernel.events]
      split <;> rfl
    | moveSelf dir' =>
      rw [Kernel.events]
      split <;> rfl

theorem applied_of_apply (sound : Sound top k) (ran : k.apply op = some k')
    (kept : k'.lost = false) : ∃ o, Applied k k' o := by
  obtain ⟨o, outcome, rfl⟩ := Option.map_eq_some_iff.mp ran
  dsimp only at kept
  refine ⟨o, does_of_outcome outcome, Kernel.lost_pushes kept, rfl, rfl,
    Kernel.pushes_frame k _, fun dir => rfl, fun event => ?_, fun name read watched => ?_⟩
  · dsimp only
    rw [Kernel.mem_pushes_iff kept, List.mem_flatMap]
  · dsimp only
    rw [Kernel.getLast?_news_pushes kept, news_events sound watched]

namespace Applied

variable (applied : Applied k k' o)
include applied

theorem sound (sound : Sound top k) : Sound top k' := by
  have watched : ∀ {dir wd : Nat}, k'.watch dir = some wd → k.watch dir = some wd := by
    intro dir wd watched
    rw [applied.watch] at watched
    split at watched
    · cases watched
    · exact watched
  have grown : k.nextInode ≤ k'.nextInode := by
    rw [applied.nextInode]
    exact nextInode_le applied.does
  refine ⟨Nat.lt_of_lt_of_le sound.top_lt grown, ?_, fun w => ?_, fun w w' => ?_⟩
  · rw [applied.nextInode, applied.dirs]
    exact forest_of_does applied.does sound
  · obtain ⟨small, wd⟩ := sound.watched (watched w)
    rw [applied.nextWd]
    exact ⟨Nat.lt_of_lt_of_le small grown, wd⟩
  · exact sound.apart (watched w) (watched w')

theorem pending {event : Event ν} (waits : event ∈ k.queue) : event ∈ k'.queue :=
  (applied.queue event).mpr (.inl waits)

/-- A notice of a watched directory waits as an event. -/
theorem pending_of_notice {isDir : Bool} (mem : .entry dir kind isDir name ∈ o.notices)
    (watched : k.watch dir = some wd) : .entry wd kind isDir name ∈ k'.queue := by
  refine (applied.queue _).mpr (.inr ⟨_, mem, ?_⟩)
  rw [Kernel.events, watched]
  exact List.mem_singleton_self _

/-- A directory that is still there has kept its watch. -/
theorem watch_of_there (sound : Sound top k) (there : dir = top ∨
    ∃ (dir' : Nat) (name : ν), (k'.dirs dir')[name]? = some (DirEntry.dir dir)) :
    k'.watch dir = k.watch dir := by
  rw [applied.watch, if_neg]
  intro deleted
  obtain ⟨other, gone, -⟩ := deleted_of_notice applied.does sound deleted
  rcases there with rfl | ⟨dir', name, there⟩
  · exact other rfl
  · rw [applied.dirs] at there
    exact gone dir' name there

end Applied

/-! ## Watches -/

namespace Kernel

theorem addWatch_watch (k : Kernel ν κ) (dir : Nat) :
    (k.addWatch dir).2.watch dir = some (k.addWatch dir).1 := by
  unfold addWatch
  split
  · rename_i wd watched
    exact watched
  · exact Function.update_self ..

theorem addWatch_frame (k : Kernel ν κ) (dir : Nat) :
    (k.addWatch dir).2.dirs = k.dirs ∧ (k.addWatch dir).2.queue = k.queue ∧
      (k.addWatch dir).2.lost = k.lost ∧
        ∀ dir', dir' ≠ dir → (k.addWatch dir).2.watch dir' = k.watch dir' := by
  unfold addWatch
  split
  · exact ⟨rfl, rfl, rfl, fun _ _ => rfl⟩
  · exact ⟨rfl, rfl, rfl, fun dir' other => Function.update_of_ne other ..⟩

/-- A watch is the one there was, or one there never was. -/
theorem addWatch_cases (k : Kernel ν κ) (dir : Nat) :
    k.watch dir = some (k.addWatch dir).1 ∧ (k.addWatch dir).2.nextWd = k.nextWd ∨
      k.watch dir = none ∧ (k.addWatch dir).1 = k.nextWd ∧
        (k.addWatch dir).2.nextWd = k.nextWd + 1 := by
  unfold addWatch
  split
  · rename_i wd watched
    exact .inl ⟨watched, rfl⟩
  · rename_i free
    exact .inr ⟨free, rfl, rfl⟩

end Kernel

theorem Sound.addWatch (sound : Sound top k) (small : dir < k.nextInode) :
    Sound top (k.addWatch dir).2 := by
  unfold Kernel.addWatch
  split
  · exact sound
  · rename_i free
    refine ⟨sound.top_lt, sound.forest, fun {dir' wd} watched => ?_, fun {a b wd} one two => ?_⟩
    · rcases update_cases watched with ⟨rfl, eq⟩ | ⟨-, watched⟩
      · cases eq
        exact ⟨small, Nat.lt_succ_self _⟩
      · obtain ⟨low, old⟩ := sound.watched watched
        exact ⟨low, Nat.lt_succ_of_lt old⟩
    · rcases update_cases one with ⟨rfl, eq⟩ | ⟨-, old⟩
      · cases eq
        rcases update_cases two with ⟨rfl, -⟩ | ⟨-, old'⟩
        · rfl
        · exact absurd (sound.watched old').2 (Nat.lt_irrefl _)
      · rcases update_cases two with ⟨rfl, eq⟩ | ⟨-, old'⟩
        · cases eq
          exact absurd (sound.watched old).2 (Nat.lt_irrefl _)
        · exact sound.apart old old'

namespace Kernel

variable (sound : Sound top k)
include sound

/-- Removing a watch is told of after everything else it was told. -/
theorem rmWatch_cases (wd : Nat) :
    (∀ dir, k.watch dir ≠ some wd) ∧ k.rmWatch wd = k ∨
      (∃ dir, k.watch dir = some wd) ∧ k.rmWatch wd = { k.push (.ignored wd) with
        watch := fun dir => if k.watch dir = some wd then none else k.watch dir } := by
  unfold rmWatch
  split
  · rename_i found
    obtain ⟨dir, -, watched⟩ := List.any_eq_true.mp found
    exact .inr ⟨⟨dir, of_decide_eq_true watched⟩, rfl⟩
  · rename_i missing
    refine .inl ⟨fun dir watched => missing (List.any_eq_true.mpr ?_), rfl⟩
    exact ⟨dir, List.mem_range.mpr (sound.watched watched).1, decide_eq_true watched⟩

theorem rmWatch_watch (wd dir : Nat) :
    (k.rmWatch wd).watch dir = if k.watch dir = some wd then none else k.watch dir := by
  rcases rmWatch_cases sound wd with ⟨none_, eq⟩ | ⟨-, eq⟩
  · rw [eq, if_neg (none_ dir)]
  · rw [eq]

theorem rmWatch_frame (wd : Nat) : (k.rmWatch wd).dirs = k.dirs ∧
    (k.rmWatch wd).nextInode = k.nextInode ∧ (k.rmWatch wd).nextWd = k.nextWd := by
  have same := push_frame k (.ignored wd)
  rcases rmWatch_cases sound wd with ⟨-, eq⟩ | ⟨-, eq⟩ <;> rw [eq]
  · exact ⟨rfl, rfl, rfl⟩
  · exact ⟨same.1, same.2.1, same.2.2.2⟩

theorem rmWatch_queue (wd : Nat) (kept : (k.rmWatch wd).lost = false) : k.lost = false ∧
    (∀ event, event ∈ (k.rmWatch wd).queue ↔
      event ∈ k.queue ∨ event = .ignored wd ∧ ∃ dir, k.watch dir = some wd) ∧
      ∀ (wd' : Nat) (name : ν) (read : List (Event ν)),
        (news wd' name (read ++ (k.rmWatch wd).queue)).getLast? =
          (news wd' name (read ++ k.queue)).getLast? := by
  rcases rmWatch_cases sound wd with ⟨none_, eq⟩ | ⟨watched, eq⟩
  · rw [eq] at kept ⊢
    refine ⟨kept, fun event => ?_, fun _ _ _ => rfl⟩
    exact ⟨.inl, fun either => either.elim id fun ⟨_, dir, w⟩ => absurd w (none_ dir)⟩
  · rw [eq] at kept ⊢
    refine ⟨(queue_push kept).1, fun event => ?_, fun wd' name read => ?_⟩
    · exact (mem_push_iff kept).trans (or_congr Iff.rfl (iff_self_and.mpr fun _ => watched))
    · exact getLast?_news_push kept

end Kernel

theorem Sound.rmWatch (sound : Sound top k) (wd : Nat) : Sound top (k.rmWatch wd) := by
  obtain ⟨dirs, nextInode, nextWd⟩ := Kernel.rmWatch_frame sound wd
  have watched : ∀ {dir wd' : Nat}, (k.rmWatch wd).watch dir = some wd' →
    k.watch dir = some wd' := by
    intro dir wd' watched
    rw [Kernel.rmWatch_watch sound] at watched
    split at watched
    · cases watched
    · exact watched
  refine ⟨nextInode ▸ sound.top_lt, ?_, fun w => ?_, fun w w' => ?_⟩
  · rw [dirs, nextInode]
    exact sound.forest
  · rw [nextInode, nextWd]
    exact sound.watched (watched w)
  · exact sound.apart (watched w) (watched w')

end Lib.Inotify
