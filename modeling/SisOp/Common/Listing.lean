import SisOp.Common.Files
import SisOp.Lib.Walk

/-!
# Listings when calls fail

`list_tree`, `stat_file` and `hash_file` of `common/files.cpp` with any choice of
the calls that fail. All three fold a failed call into the absence of the file:
`mem_listTree_iff` says what is left of a listing.
-/

namespace SisOp

open Lib Std

/-- The calls that fail, by the path they are made on; the empty path is the
directory a listing starts at. -/
structure Faults where
  opendir : Bytes → Bool
  lstat : Bytes → Bool
  openFile : Bytes → Bool
  fstat : Bytes → Bool
  read : Bytes → Bool

/-- No call fails. -/
def Faults.none : Faults :=
  ⟨fun _ => false, fun _ => false, fun _ => false, fun _ => false, fun _ => false⟩

namespace Faults

/-- `stat_file` without the hash gets through. -/
def stats (faults : Faults) (path : Bytes) : Bool := !faults.openFile path && !faults.fstat path

/-- `hash_file` gets through. -/
def hashes (faults : Faults) (path : Bytes) : Bool := faults.stats path && !faults.read path

/-- The walk gets to the path: every directory on the way can be opened, and it
and every directory below the root can be looked at. -/
def reaches (faults : Faults) (path : Bytes) : Bool :=
  !faults.opendir [] && !faults.lstat path &&
    (dirs path).all fun dir => !faults.lstat dir && !faults.opendir dir

end Faults

/-- `list_tree`, sorted by path. -/
def listTree (faults : Faults) (tree : FileTree Bytes File) : List (Bytes × File) :=
  (((tree.walk (fun dir => !faults.opendir (dir.getD []))
      (fun path => isValidFileName (baseName path) && !faults.lstat path)
      (MAX_PATH_DEPTH - 1) .none).filter isValidPath).filterMap fun path =>
        (tree.file? path).map (Prod.mk path)).mergeSort fun a b => (compare a.1 b.1).isLE

/-- `stat_file` without the hash; a file is opened before it is looked at. -/
def statFile (faults : Faults) (tree : FileTree Bytes File) (path : Bytes) : Option File :=
  if faults.stats path then tree.file? path else none

/-- `hash_file`. -/
def hashFile (faults : Faults) (tree : FileTree Bytes File) (path : Bytes) : Option UInt64 :=
  if faults.hashes path then (tree.file? path).map fun file => fnv1a file.content else none

/-- A file with a valid path is listed when no call on the way to it fails. -/
theorem mem_listTree_iff {faults : Faults} {tree : FileTree Bytes File} {path : Bytes}
    {file : File} :
    (path, file) ∈ listTree faults tree ↔
      tree.file? path = some file ∧ isValidPath path = true ∧ faults.reaches path = true := by
  simp only [listTree, List.mem_mergeSort, List.mem_filterMap, List.mem_filter,
    FileTree.mem_walk_root_iff, ancestors_eq_dirs, Option.map_eq_some_iff, Prod.mk.injEq,
    Faults.reaches, Bool.and_eq_true, Bool.not_eq_true', Option.getD_none, Option.getD_some,
    List.all_eq_true]
  constructor
  · rintro ⟨p, ⟨⟨-, root, ⟨-, seen⟩, way, -⟩, valid⟩, f, present, rfl, rfl⟩
    exact ⟨present, valid, ⟨root, seen⟩, fun d mem => ⟨(way d mem).1.2, (way d mem).2⟩⟩
  · rintro ⟨present, valid, ⟨root, seen⟩, way⟩
    obtain ⟨names, short⟩ := components_of_isValidPath valid
    refine ⟨path, ⟨⟨⟨file, present⟩, root, ⟨?_, seen⟩, fun d mem => ⟨⟨?_, ?_⟩, ?_⟩, by omega⟩,
      valid⟩, file, present, rfl, rfl⟩
    · exact names path (List.mem_append_right _ (List.mem_singleton_self _))
    · exact names d (List.mem_append_left _ mem)
    · exact (way d mem).1
    · exact (way d mem).2

end SisOp
