import SisOp.Server.Listing
import SisOp.Lib.Subtree

/-!
# The store on disk

`server/storage.cpp` as the calls it makes on full paths. All users' files are in
one tree, and a user's directory is only a prefix of the paths. `Represents`
relates that tree to the store with one tree a user.
-/

namespace SisOp

open Lib Std

/-! ## Below a directory -/

theorem dirs_below (dir p : Bytes) :
    dirs (dir ++ slash :: p) = dirs dir ++ [dir] ++ (dirs p).map fun d => dir ++ slash :: d := by
  induction p using path_induction with
  | top name plain => rw [dirs_append plain, dirs_eq_nil plain, List.map_nil, List.append_nil]
  | below above name plain ih =>
    have whole : dir ++ slash :: (above ++ slash :: name) =
        (dir ++ slash :: above) ++ slash :: name := by
      rw [List.append_assoc, List.cons_append]
    rw [whole, dirs_append plain, ih, dirs_append plain, List.map_append, List.append_assoc,
      List.map_singleton]

/-- The paths below a directory, its own path first. -/
def subdir (dir : Bytes) : Subdir Bytes where
  under p := dir ++ slash :: p
  relative q := if (dir ++ [slash]).isPrefixOf q then some (q.drop (dir.length + 1)) else none
  way := dirs dir ++ [dir]
  relative_eq_some_iff := by
    intro q p
    rw [ite_eq_iff, or_iff_left (fun both => nomatch both.2), List.isPrefixOf_iff_prefix,
      Option.some.injEq]
    constructor
    · rintro ⟨⟨rest, rfl⟩, rfl⟩
      simp
    · rintro rfl
      exact ⟨⟨p, by simp⟩, by simp⟩
  ancestors_under p := dirs_below dir p
  closed := by
    intro p q above
    obtain ⟨rest, rfl⟩ := mem_dirs_iff.mp above
    exact ⟨p ++ slash :: rest, by simp⟩

namespace Disk

abbrev Tree := FileTree Bytes File

/-- The user's own tree. -/
def userTree (root : Bytes) (disk : Tree) (user : Bytes) : Tree :=
    disk.sub (subdir (userDir root user))

/-- `make_dirs`: every prefix of the path. -/
def makeDirs (disk : Tree) (path : Bytes) : Tree × Bool :=
  disk.makeDirs ((dirs path ++ [path]).filter (· ≠ []))

/-- `make_parent_dirs`. -/
def makeParentDirs (disk : Tree) (root path : Bytes) : Tree × Bool :=
  if (parentPath path).isEmpty then (disk, true) else makeDirs disk
    (joinPath root (parentPath path))

/-- `Storage::ensure_user`. -/
def ensureUser (root : Bytes) (disk : Tree) (user : Bytes) : Tree × Bool :=
  makeDirs disk (userDir root user)

/-- `Storage::commit` of a finished temporary file, the cache apart. -/
def commit (root : Bytes) (disk : Tree) (user path : Bytes) (temp : File) : Tree × Bool :=
  let ensured := ensureUser root disk user
  if ensured.2 then
    let parents := makeParentDirs ensured.1 (userDir root user) path
    if parents.2 then
      match parents.1.place (filePath root user path) temp with
      | some disk => (disk, true)
      | none => (parents.1, false)
    else (parents.1, false)
  else (ensured.1, false)

/-- `Storage::remove`, the cache apart. -/
def remove (root : Bytes) (disk : Tree) (user path : Bytes) : Tree × Bool :=
  match disk.unlink (filePath root user path) with
  | some disk => (disk.rmdirs ((dirs path).reverse.map (joinPath (userDir root user))), true)
  | none => (disk, false)

/-! ## One user's operations -/

section User

variable {root user path : Bytes} {disk : Tree} {temp : File}

theorem under_path (userValid : isValidUsername user = true) (path : Bytes) :
    filePath root user path = (subdir (userDir root user)).under path :=
  filePath_eq userValid path

theorem join_userDir (userValid : isValidUsername user = true) (path : Bytes) :
    joinPath (userDir root user) path = (subdir (userDir root user)).under path :=
  filePath_eq userValid path

/-- The user's directory is there, as after a login. -/
def HasUser (root : Bytes) (disk : Tree) (user : Bytes) : Prop :=
  disk.node (userDir root user) = some .dir

theorem HasUser.entered (has : HasUser root disk user) :
    disk.Entered (subdir (userDir root user)) := by
  intro q mem
  rcases List.mem_append.mp mem with above | here
  · exact FileTree.node_of_mem_ancestors (by rw [has]; nofun) above
  · rw [List.mem_singleton.mp here]
    exact has

theorem HasUser.of_works {disk' below : Tree} (has : HasUser root disk user)
    (works : FileTree.Works (subdir (userDir root user)) disk disk' below) :
    HasUser root disk' user :=
  works.entered has.entered _ (List.mem_append_right _ (List.mem_singleton_self _))

theorem ensureUser_of_has (has : HasUser root disk user) :
    ensureUser root disk user = (disk, true) := by
  have present : ∀ q ∈ (dirs (userDir root user) ++ [userDir root user]).filter (· ≠ []),
      disk.node q = some .dir := fun q mem => has.entered q (List.mem_of_mem_filter mem)
  have last : ((dirs (userDir root user) ++ [userDir root user]).filter (· ≠ [])).getLast?.all
      disk.isDir = true := by
    rw [Option.all_eq_true]
    exact fun q mem => FileTree.isDir_iff.mpr (present q (List.mem_of_getLast? mem))
  have made := FileTree.mkdirs_append_of_dirs present []
  rw [List.append_nil] at made
  simp only [ensureUser, makeDirs, FileTree.makeDirs, made, FileTree.mkdirs, last, Bool.true_and]

/-- The parents of a file are made as the user's own tree makes them. -/
theorem works_makeParentDirs (userValid : isValidUsername user = true)
    (pathValid : isValidPath path = true) (has : HasUser root disk user) :
    FileTree.Works (subdir (userDir root user)) disk
      (makeParentDirs disk (userDir root user) path).1
        ((userTree root disk user).makeDirs (dirs path)).1 ∧
      (makeParentDirs disk (userDir root user) path).2 =
        ((userTree root disk user).makeDirs (dirs path)).2 := by
  rcases path_cases path with plain | ⟨dir, name, rfl, plain⟩
  · unfold makeParentDirs
    rw [parentPath_plain plain, dirs_eq_nil plain]
    exact ⟨.refl, rfl⟩
  · have filled := dir_ne_nil pathValid plain
    have prefixes : (dirs ((subdir (userDir root user)).under dir) ++
        [(subdir (userDir root user)).under dir]).filter (· ≠ []) =
          (subdir (userDir root user)).way.filter (· ≠ []) ++
            (dirs dir ++ [dir]).map (subdir (userDir root user)).under := by
      have nonempty : ∀ d ∈ (dirs dir ++ [dir]).map (subdir (userDir root user)).under,
          decide (d ≠ []) = true := by
        intro d mem
        obtain ⟨r, -, rfl⟩ := List.mem_map.mp mem
        exact decide_eq_true (List.append_ne_nil_of_right_ne_nil _ nofun)
      have split := (subdir (userDir root user)).ancestors_under dir
      rw [ancestors_eq_dirs, ancestors_eq_dirs] at split
      rw [split, List.append_assoc, ← List.map_singleton, ← List.map_append, List.filter_append,
        List.filter_eq_self.mpr nonempty]
    unfold makeParentDirs
    rw [parentPath_append plain, if_neg (by rwa [List.isEmpty_iff]), join_userDir userValid,
      makeDirs, prefixes, dirs_append plain]
    exact FileTree.works_makeDirs has.entered (fun q mem => List.mem_of_mem_filter mem)
      (List.append_ne_nil_of_right_ne_nil _ nofun)

/-- A commit does to the user's own tree what storing the file there does. -/
theorem works_commit (userValid : isValidUsername user = true) (pathValid : isValidPath path = true)
    (has : HasUser root disk user) (temp : File) :
    FileTree.Works (subdir (userDir root user)) disk (commit root disk user path temp).1
        ((userTree root disk user).put path temp).1 ∧
      (commit root disk user path temp).2 = ((userTree root disk user).put path temp).2 := by
  obtain ⟨parents, same⟩ := works_makeParentDirs userValid pathValid has
  unfold commit FileTree.put
  rw [ensureUser_of_has has, ancestors_eq_dirs]
  dsimp only
  rw [if_pos rfl, same]
  split
  · have acts := FileTree.acts_place (parents.entered has.entered) path temp
    rw [parents.below, ← under_path userValid] at acts
    cases made : ((userTree root disk user).makeDirs (dirs path)).1.place path temp with
    | some t'' =>
      rw [made] at acts
      obtain ⟨t', made', works⟩ := acts.works
      rw [made']
      exact ⟨parents.trans works, rfl⟩
    | none =>
      rw [made] at acts
      rw [acts.fails]
      exact ⟨parents, rfl⟩
  · exact ⟨parents, rfl⟩

/-- A removal does to the user's own tree what deleting the file there does. -/
theorem works_remove (userValid : isValidUsername user = true) (disk : Tree) (path : Bytes) :
    FileTree.Works (subdir (userDir root user)) disk (remove root disk user path).1
        ((userTree root disk user).delete path).1 ∧
      (remove root disk user path).2 = ((userTree root disk user).delete path).2 := by
  have acts := FileTree.acts_unlink disk (subdir (userDir root user)) path
  have parents : (dirs path).reverse.map (joinPath (userDir root user)) =
      (dirs path).reverse.map (subdir (userDir root user)).under :=
    List.map_congr_left fun d _ => join_userDir userValid d
  unfold remove FileTree.delete
  rw [parents, under_path userValid, ancestors_eq_dirs]
  cases made : (userTree root disk user).unlink path with
  | some t'' =>
    rw [userTree] at made
    rw [made] at acts
    obtain ⟨t', made', works⟩ := acts.works
    rw [made']
    have rest := FileTree.works_rmdirs (d := subdir (userDir root user)) (dirs path).reverse t'
    rw [works.below] at rest
    exact ⟨works.trans rest, rfl⟩
  | none =>
    rw [userTree] at made
    rw [made] at acts
    rw [acts.fails]
    exact ⟨.refl, rfl⟩

end User

/-! ## Other users -/

section Others

variable {root user u path : Bytes} {disk disk' below : Tree}

theorem outside_filePath (userValid : isValidUsername user = true)
    (uValid : isValidUsername u = true)
    (other : u ≠ user) (p : Bytes) : (subdir (userDir root user)).Outside (filePath root u p) := by
  intro q same
  rw [← under_path userValid] at same
  exact other ((filePath_inj uValid userValid).mp same).1

theorem outside_userDir (uValid : isValidUsername u = true) :
    (subdir (userDir root user)).Outside (userDir root u) := by
  intro q same
  change userDir root u = userDir root user ++ slash :: q at same
  rw [userDir_eq, userDir_eq, List.append_assoc, List.append_cancel_left_eq,
    List.cons_append] at same
  refine slash_not_mem_of_isValidUsername uValid ?_
  rw [(List.cons.inj same).2]
  exact List.mem_append_right _ List.mem_cons_self

/-- Work in one user's directory leaves every other user's tree. -/
theorem userTree_of_works (userValid : isValidUsername user = true)
    (uValid : isValidUsername u = true) (other : u ≠ user)
    (works : FileTree.Works (subdir (userDir root user)) disk disk' below) :
    userTree root disk' u = userTree root disk u := by
  refine FileTree.ext_node fun p => ?_
  rw [userTree, userTree, FileTree.node_sub, FileTree.node_sub, ← under_path uValid]
  exact works.outside _ (outside_filePath userValid uValid other p)

/-- The disk holds what the store says: each user's directory with the files. -/
structure Represents (root : Bytes) (disk : Tree) (s : Storage) : Prop where
  valid : ∀ u ∈ s.userDirs, isValidUsername u = true
  user : ∀ u d, s.userDirs[u]? = some d → HasUser root disk u ∧ userTree root disk u = d.tree

variable {s : Storage}

theorem Represents.insert (represents : Represents root disk s)
    (userValid : isValidUsername user = true) {d : UserDir} (has : HasUser root disk user)
    (works : FileTree.Works (subdir (userDir root user)) disk disk' d.tree) :
    Represents root disk' ⟨s.userDirs.insert user d⟩ where
  valid u mem := by
    rcases Map.mem_insert_iff.mp mem with rfl | mem
    · exact userValid
    · exact represents.valid u mem
  user u d' present := by
    rw [Map.getElem?_insert] at present
    split at present
    · subst u
      cases present
      exact ⟨has.of_works works, works.below⟩
    · rename_i other
      obtain ⟨has', tree⟩ := represents.user u d' present
      have uValid := represents.valid u (Map.mem_iff_ne_none.mpr (by rw [present]; nofun))
      refine ⟨(works.outside _ (outside_userDir uValid)).trans has', ?_⟩
      rw [userTree_of_works userValid uValid other works, tree]

/-- `commit` on disk is the store's `commit`. -/
theorem Represents.commit (represents : Represents root disk s) (mem : user ∈ s.userDirs)
    (pathValid : isValidPath path = true) (temp : File) :
    Represents root (commit root disk user path temp).1 (s.commit user path temp).1 ∧
      (Disk.commit root disk user path temp).2 = (s.commit user path temp).2 := by
  have userValid := represents.valid user mem
  obtain ⟨d, present⟩ := Option.ne_none_iff_exists'.mp (Map.mem_iff_ne_none.mp mem)
  obtain ⟨has, tree⟩ := represents.user user d present
  obtain ⟨works, same⟩ := works_commit userValid pathValid has temp
  rw [tree] at works same
  have store : s.commit user path temp =
      (⟨s.userDirs.insert user (d.put path temp)⟩, (d.tree.put path temp).2) := by
    have known : s.ensureUser user = s := if_pos mem
    rw [Storage.commit, known, present]
  rw [store]
  exact ⟨represents.insert userValid has works, same⟩

/-- `remove` on disk is the store's `remove`. -/
theorem Represents.remove (represents : Represents root disk s) (mem : user ∈ s.userDirs)
    (path : Bytes) : Represents root (remove root disk user path).1 (s.remove user path).1 ∧
      (Disk.remove root disk user path).2 = (s.remove user path).2 := by
  have userValid := represents.valid user mem
  obtain ⟨d, present⟩ := Option.ne_none_iff_exists'.mp (Map.mem_iff_ne_none.mp mem)
  obtain ⟨has, tree⟩ := represents.user user d present
  obtain ⟨works, same⟩ := works_remove userValid disk path
  rw [tree] at works same
  rw [Storage.remove, present]
  exact ⟨represents.insert userValid has works, same⟩

end Others

end Disk

end SisOp
