import SisOp.Cluster.Resync
import SisOp.Server.HashCache

/-!
# The hashes a server reports

`attach_replica` and `build_manifest` compare files by what `Storage::list`
reports, and for a file the cache knows with its size and time that is the saved
hash. Listings run on any number of threads, without the write mutex: each looks
at a file, looks it up, hashes it and saves the hash, call by call as in
`SisOp.Caching`, while changes are committed in between. A commit that forgets
the saved hash and moves the new file into place is one step here: a hash that is
saved between the two might as well be saved after them.

So is a listing for a comparison of files, one user's at least. What others save
of a file comes before or after it, or is replaced at once by what it saves.

Main result: `report_of_right`, what is reported when the cache is right.
-/

namespace SisOp

open Lib Std Caching

/-- Where a call of `Storage::list` is with one file: `lstat` saw it, the cache
had nothing on it, its hash is to be saved. -/
inductive Look where
  | seen (key : FileKey) (info : FileInfo)
  | missed (key : FileKey) (info : FileInfo)
  | hashed (key : FileKey) (info : FileInfo)
  deriving DecidableEq

/-- The cache of a server, and what may still be saved in it. -/
structure Hashes where
  saved : ExtTreeMap FileKey FileInfo
  looks : List Look

/-- A listing comes to a file, goes on with one, or leaves one: it cannot be opened,
or the hash saved is replaced at once. -/
inductive Listing where
  | see (key : FileKey)
  | next (i : Nat)
  | leave (i : Nat)
  deriving DecidableEq

/-- `ensure_user`, then `make_parent_dirs`: whether a commit gets to forget the saved
hash. -/
def Storage.makesWay (s : Storage) (user path : Bytes) : Bool :=
  match (s.ensureUser user).userDirs[user]? with
  | some d => (d.tree.makeDirs (Hierarchy.ancestors path)).2
  | none => false

namespace Hashes

instance : EmptyCollection Hashes where
  emptyCollection := ⟨∅, []⟩

/-- One step of a listing, on a server that stores `s`. -/
def step (h : Hashes) (s : Storage) : Listing → Option Hashes
  | .see key =>
    (s.file? key.user key.name).map fun file =>
      { h with looks := h.looks ++ [.seen key { file.info key.name with hash := 0 }] }
  | .next i =>
    match h.looks[i]? with
    | none => none
    | some (.seen key info) =>
      if (saved? h.saved key info).isSome then some { h with looks := h.looks.eraseIdx i }
      else some { h with looks := h.looks.set i (.missed key info) }
    | some (.missed key info) =>
      match s.file? key.user key.name with
      | some now =>
        some { h with looks := h.looks.set i (.hashed key { info with hash := fnv1a now.content }) }
      | none => some { h with looks := h.looks.eraseIdx i } -- vanished meanwhile
    | some (.hashed key info) => some ⟨h.saved.insert key info, h.looks.eraseIdx i⟩
  | .leave i => if i < h.looks.length then some { h with looks := h.looks.eraseIdx i } else none

/-- What is reported of files, by their own hashes: the saved one where there is one
with the size and time. -/
def report (h : Hashes) (files : List (FileKey × FileInfo)) : List (FileKey × FileInfo) :=
  files.map fun entry =>
    (entry.1, { entry.2 with hash := (saved? h.saved entry.1 entry.2).getD entry.2.hash })

/-- What is reported is saved. -/
def keep (h : Hashes) (reported : List (FileKey × FileInfo)) : Hashes :=
  { h with saved := reported.foldl (fun saved entry => saved.insert entry.1 entry.2) h.saved }

/-- What a change of this store leaves of the cache: a commit forgets the hash saved
of its path, and so does a removal that finds the file. -/
def forget (h : Hashes) (s : Storage) : Change → Hashes
  | .put user name _ =>
    if isValidUsername user && isValidPath name && s.makesWay user name then
      { h with saved := h.saved.erase ⟨user, name⟩ }
    else h
  | .delete user name =>
    if isValidUsername user && isValidPath name && (s.remove user name).2 then
      { h with saved := h.saved.erase ⟨user, name⟩ }
    else h
  | .account _ _ => h

/-- Every hash saved of a file with the size and time it has is the file's. -/
def Right (h : Hashes) (s : Storage) : Prop :=
  ∀ (key : FileKey) file saved, s.file? key.user key.name = some file → h.saved[key]? = some saved →
    Agrees saved file

variable {h : Hashes} {s : Storage}

theorem right_iff : h.Right s ↔
    ∀ entry ∈ h.saved.toList, ∀ file ∈ s.file? entry.1.user entry.1.name, Agrees entry.2 file := by
  constructor
  · intro right entry mem file there
    exact right entry.1 file entry.2 there (ExtTreeMap.mem_toList_iff_getElem?_eq_some.mp mem)
  · intro all key file saved there known
    exact all (key, saved) (ExtTreeMap.mem_toList_iff_getElem?_eq_some.mpr known) file there

instance (h : Hashes) (s : Storage) : Decidable (h.Right s) := decidable_of_iff' _ right_iff

theorem right_of_empty (s : Storage) (looks : List Look) : Right ⟨∅, looks⟩ s := by
  intro key file saved _ known
  rw [ExtTreeMap.getElem?_empty] at known
  cases known

/-- A hash that is used is the file's. -/
theorem hash_of_right (right : h.Right s) {key : FileKey} {file : File} {hash : UInt64}
    (there : s.file? key.user key.name = some file)
    (known : saved? h.saved key (file.info key.name) = some hash) : hash = fnv1a file.content := by
  unfold saved? at known
  split at known
  · rename_i saved present
    split at known <;> cases known
    rename_i same
    exact right key file saved there present same.1 same.2
  · cases known

/-- **What a right cache reports.** Files are reported with their own hashes. -/
theorem report_of_right (right : h.Right s) {files : List (FileKey × FileInfo)}
    (listed : ∀ entry ∈ files, ∃ file,
      s.file? entry.1.user entry.1.name = some file ∧ entry.2 = file.info entry.1.name) :
    h.report files = files := by
  refine (List.map_congr_left fun entry mem => ?_).trans (List.map_id files)
  obtain ⟨key, info⟩ := entry
  obtain ⟨file, there, same⟩ := listed _ mem
  dsimp only at there same ⊢
  subst same
  cases known : saved? h.saved key (file.info key.name) with
  | none => rfl
  | some hash =>
    rw [hash_of_right right there known]
    rfl

/-- The whole store, as `attach_replica` and `build_manifest` list it. -/
theorem report_entries (right : h.Right s) (valid : s.Valid) : h.report s.entries = s.entries :=
  report_of_right right fun _ mem => (Storage.mem_entries_iff valid).mp mem

end Hashes

end SisOp
