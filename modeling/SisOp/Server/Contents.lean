import SisOp.Server.Disk
import SisOp.Lib.PrefixMap

/-!
# What the store means

A run of `Storage::commit` and `Storage::remove` on a store that starts empty. To
its callers the tree of files and folders is one prefix-free map of contents for
each user.

Main result: `run_refines`.
-/

namespace SisOp

open Lib Std Hierarchy

/-! ## Runs -/

inductive StoreCall where
  | commit (user path : Bytes) (temp : File)
  | remove (user path : Bytes)

namespace StoreCall

/-- The names were checked by the callers. -/
def Valid : StoreCall → Prop
  | .commit user path _ | .remove user path =>
    isValidUsername user = true ∧ isValidPath path = true

end StoreCall

namespace Disk

def apply (root : Bytes) (disk : Tree) : StoreCall → Tree × Bool
  | .commit user path temp => commit root disk user path temp
  | .remove user path => remove root disk user path

/-- The disk after the changes, and what each of them returned. -/
def applyAll (root : Bytes) : Tree → List StoreCall → Tree × List Bool
  | disk, [] => (disk, [])
  | disk, call :: calls =>
    let one := apply root disk call
    let rest := applyAll root one.1 calls
    (rest.1, one.2 :: rest.2)

/-- As `Storage::init` leaves a new store: the users' directory is there, and
nothing in it. -/
structure Empty (root : Bytes) (disk : Tree) : Prop where
  users : disk.node (usersDir root) = some .dir
  below : ∀ p, usersDir root ∈ dirs p → disk.node p = none

end Disk

/-! ## The maps -/

/-- One map of contents for each user. -/
abbrev Contents := Bytes → PrefixMap Bytes Bytes

namespace Contents

noncomputable def apply (c : Contents) : StoreCall → Contents × Bool
  | .commit user path temp =>
    let stored := (c user).store path temp.content
    (fun u => if u = user then stored.1 else c u, stored.2)
  | .remove user path =>
    let erased := (c user).erase path
    (fun u => if u = user then erased.1 else c u, erased.2)

noncomputable def applyAll : Contents → List StoreCall → Contents × List Bool
  | c, [] => (c, [])
  | c, call :: calls =>
    let one := c.apply call
    let rest := applyAll one.1 calls
    (rest.1, one.2 :: rest.2)

end Contents

/-! ## The store represents the maps -/

namespace Storage

variable {s : Storage} {user path : Bytes}

def contents (s : Storage) : Contents := fun user =>
  { get := s.content? user
    prefixFree := by
      intro p q present above
      rw [ne_eq, content?_eq_none_iff] at present
      exact content?_eq_none_iff.mpr (file?_none_of_mem_dirs present above) }

/-- `commit` and `remove` together. -/
def apply (s : Storage) : StoreCall → Storage × Bool
  | .commit user path temp => s.commit user path temp
  | .remove user path => s.remove user path

theorem fits_contents : (s.contents user).Fits path ↔ s.Fits user path := by
  simp only [PrefixMap.Fits, Fits, contents, content?_eq_none_iff]
  rfl

/-- One change of the store is that change of the maps. -/
theorem contents_apply (s : Storage) (call : StoreCall) :
    (s.apply call).1.contents = (s.contents.apply call).1 ∧
      (s.apply call).2 = (s.contents.apply call).2 := by
  cases call with
  | commit user path temp =>
    simp only [apply, Contents.apply]
    by_cases fits : s.Fits user path
    · have ok : (s.commit user path temp).2 = true := commit_ok_iff.mpr fits
      have stored := fits_contents.mpr fits
      refine ⟨funext fun u => ?_, ok.trans (PrefixMap.store_ok_iff.mpr stored).symm⟩
      ext1 p
      dsimp only [contents]
      rw [content?_commit ok]
      by_cases same : u = user
      · subst u
        simp only [true_and, if_true]
        rw [← contents, PrefixMap.get_store stored]
        rfl
      · rw [if_neg (fun both => same both.1), if_neg same]
    · have failed : (s.commit user path temp).2 = false := by
        rw [← Bool.not_eq_true, commit_ok_iff]
        exact fits
      have blocked := PrefixMap.store_of_not_fits (c := temp.content)
        (fun stored => fits (fits_contents.mp stored))
      rw [blocked]
      refine ⟨funext fun u => ?_, failed⟩
      ext1 p
      dsimp only [contents]
      rw [content?_commit_of_fail failed]
      split
      · subst u
        rfl
      · rfl
  | remove user path =>
    simp only [apply, Contents.apply]
    refine ⟨funext fun u => ?_, ?_⟩
    · ext1 p
      dsimp only [contents]
      rw [content?_remove]
      by_cases same : u = user
      · subst u
        simp only [true_and, if_true]
        rw [← contents, PrefixMap.get_erase]
        rfl
      · rw [if_neg (fun both => same both.1), if_neg same]
    · rw [Bool.eq_iff_iff, remove_ok_iff, PrefixMap.erase_ok_iff, ne_eq, ne_eq, not_iff_not]
      exact content?_eq_none_iff.symm

end Storage

/-! ## The disk represents the store -/

namespace Disk

section Holds

variable {root user path : Bytes} {disk : Tree} {s : Storage}

/-- The users' directory holds what the store says, and nothing else of a user. -/
structure Holds (root : Bytes) (disk : Tree) (s : Storage) : Prop where
  represents : Represents root disk s
  users : disk.node (usersDir root) = some .dir
  absent : ∀ u, isValidUsername u = true → u ∉ s.userDirs → disk.node (userDir root u) = none

theorem usersDir_mem_dirs (root user : Bytes) : usersDir root ∈ dirs (userDir root user) :=
  mem_dirs_iff.mpr ⟨user, userDir_eq root user⟩

theorem Empty.holds (empty : Empty root disk) : Holds root disk ∅ where
  represents := ⟨fun u mem => (ExtTreeMap.not_mem_empty mem).elim, fun u d present => by
    rw [show (∅ : Storage).userDirs[u]? = none from ExtTreeMap.getElem?_empty] at present
    cases present⟩
  users := empty.users
  absent u _ _ := empty.below _ (usersDir_mem_dirs root u)

/-- The directory of a new user is one `mkdir`. -/
theorem ensureUser_of_absent (holds : Holds root disk s) (userValid : isValidUsername user = true)
    (new : user ∉ s.userDirs) : ∃ disk', disk.mkdir (userDir root user) = some disk' ∧
      ensureUser root disk user = (disk', true) := by
  have plain := slash_not_mem_of_isValidUsername userValid
  have split : dirs (userDir root user) = dirs (usersDir root) ++ [usersDir root] := by
    rw [userDir_eq, dirs_append plain]
  have present : ∀ q ∈ dirs (userDir root user), disk.node q = some .dir := by
    intro q mem
    rw [split] at mem
    rcases List.mem_append.mp mem with above | here
    · exact FileTree.node_of_mem_ancestors (by rw [holds.users]; nofun) above
    · rw [List.mem_singleton.mp here]
      exact holds.users
  have missing := holds.absent user userValid new
  obtain ⟨disk', made⟩ : ∃ disk', disk.mkdir (userDir root user) = some disk' := by
    rw [← Option.ne_none_iff_exists', ne_eq, FileTree.mkdir_eq_none_iff, not_not]
    exact ⟨FileTree.resolves_iff.mpr present, missing⟩
  refine ⟨disk', made, ?_⟩
  have nonempty : userDir root user ≠ [] := by
    rw [userDir_eq]
    exact List.append_ne_nil_of_right_ne_nil _ nofun
  have calls : (dirs (userDir root user) ++ [userDir root user]).filter (· ≠ []) =
      (dirs (userDir root user)).filter (· ≠ []) ++ [userDir root user] := by
    rw [List.filter_append, List.filter_singleton, decide_eq_true nonempty, cond_true]
  have earlier : ∀ q ∈ (dirs (userDir root user)).filter (· ≠ []), disk.node q = some .dir :=
    fun q mem => present q (List.mem_of_mem_filter mem)
  have last : disk'.isDir (userDir root user) = true := by
    rw [FileTree.isDir_iff, FileTree.node_mkdir made, if_pos rfl]
  rw [ensureUser, makeDirs, calls, FileTree.makeDirs, FileTree.mkdirs_append_of_dirs earlier,
    FileTree.mkdirs, made, List.getLast?_concat]
  dsimp only
  rw [FileTree.mkdirs, Option.all_some, last]
  rfl

theorem Holds.ensureUser (holds : Holds root disk s) (userValid : isValidUsername user = true) :
    ∃ disk', ensureUser root disk user = (disk', true) ∧ Holds root disk' (s.ensureUser user) ∧
      user ∈ (s.ensureUser user).userDirs := by
  by_cases known : user ∈ s.userDirs
  · obtain ⟨d, present⟩ := Option.ne_none_iff_exists'.mp (Map.mem_iff_ne_none.mp known)
    refine ⟨disk, ensureUser_of_has (holds.represents.user user d present).1, ?_⟩
    rw [Storage.ensureUser, if_pos known]
    exact ⟨holds, known⟩
  · obtain ⟨disk', made, ensured⟩ := ensureUser_of_absent holds userValid known
    refine ⟨disk', ensured, ?_⟩
    rw [Storage.ensureUser, if_neg known]
    have nodes := FileTree.node_mkdir made
    refine ⟨⟨⟨fun u mem => ?_, fun u d present => ?_⟩, ?_, fun u uValid missing => ?_⟩,
      Map.mem_insert_iff.mpr (.inl rfl)⟩
    · rcases Map.mem_insert_iff.mp mem with rfl | old
      · exact userValid
      · exact holds.represents.valid u old
    · rw [Map.getElem?_insert] at present
      split at present
      · subst u
        cases present
        refine ⟨by rw [HasUser, nodes, if_pos rfl], FileTree.ext_node fun p => ?_⟩
        have above : userDir root user ∈ dirs (userDir root user ++ slash :: p) :=
          mem_dirs_iff.mpr ⟨p, rfl⟩
        rw [userTree, FileTree.node_sub]
        change disk'.node (userDir root user ++ slash :: p) = (∅ : Tree).node p
        rw [FileTree.node_empty, nodes, if_neg (Hierarchy.ne_of_mem above).symm]
        exact FileTree.node_none_of_above (holds.absent user userValid known) above
      · obtain ⟨has, tree⟩ := holds.represents.user u d present
        refine ⟨?_, FileTree.ext_node fun p => ?_⟩
        · rw [HasUser, nodes]
          split
          · rfl
          · exact has
        · rw [userTree, FileTree.node_sub, nodes, if_neg, ← tree, userTree, FileTree.node_sub]
          have outside : (subdir (userDir root u)).Outside (userDir root user) :=
            outside_userDir userValid
          exact fun same => outside p same.symm
    · rw [nodes]
      split
      · rfl
      · exact holds.users
    · rw [Map.mem_insert_iff, not_or] at missing
      rw [nodes, if_neg]
      · exact holds.absent u uValid missing.2
      · intro same
        rw [userDir_eq, userDir_eq, List.append_cancel_left_eq, List.cons.injEq] at same
        exact missing.1 same.2

/-- Work in the directory of a known user. -/
theorem Holds.works (holds : Holds root disk s) {disk' below : Tree}
    {d : UserDir} (works : FileTree.Works (subdir (userDir root user)) disk disk' below)
    (represents : Represents root disk' ⟨s.userDirs.insert user d⟩) :
    Holds root disk' ⟨s.userDirs.insert user d⟩ := by
  refine ⟨represents, ?_, fun u uValid missing => ?_⟩
  · rw [works.outside _ ((subdir _).outside_of_mem_way
      (List.mem_append_left _ (usersDir_mem_dirs root user)))]
    exact holds.users
  · rw [Map.mem_insert_iff, not_or] at missing
    rw [works.outside _ (outside_userDir uValid)]
    exact holds.absent u uValid missing.2

/-- Work that leaves the tree below as it is leaves the disk as it is. -/
theorem eq_of_works {disk' : Tree}
    (works : FileTree.Works (subdir (userDir root user)) disk disk' (userTree root disk user)) :
    disk' = disk := by
  refine FileTree.ext_node fun q => ?_
  by_cases below : ∃ p, q = (subdir (userDir root user)).under p
  · obtain ⟨p, rfl⟩ := below
    have same := congrArg (fun t : Tree => t.node p) works.below
    rw [FileTree.node_sub, userTree, FileTree.node_sub] at same
    exact same
  · exact works.outside q fun p same => below ⟨p, same⟩

theorem Holds.commit (holds : Holds root disk s) (userValid : isValidUsername user = true)
    (pathValid : isValidPath path = true) (temp : File) :
    Holds root (commit root disk user path temp).1 (s.commit user path temp).1 ∧
      (Disk.commit root disk user path temp).2 = (s.commit user path temp).2 ∧
      ((s.commit user path temp).2 = false → (Disk.commit root disk user path temp).1 = disk) := by
  obtain ⟨disk', ensured, holds', known⟩ := holds.ensureUser userValid
  obtain ⟨d, present⟩ := Option.ne_none_iff_exists'.mp (Map.mem_iff_ne_none.mp known)
  obtain ⟨has, tree⟩ := holds'.represents.user user d present
  have again : Disk.commit root disk user path temp = Disk.commit root disk' user path temp := by
    rw [Disk.commit, Disk.commit, ensured, ensureUser_of_has has]
  obtain ⟨works, same⟩ := works_commit userValid pathValid has temp
  rw [tree] at works same
  have store : s.commit user path temp =
      (⟨(s.ensureUser user).userDirs.insert user (d.put path temp)⟩, (d.tree.put path temp).2) := by
    rw [Storage.commit, present]
  rw [again, store]
  refine ⟨holds'.works works (holds'.represents.insert userValid has works), same, ?_⟩
  intro failed
  dsimp only at failed
  rw [FileTree.put_of_fail failed, ← tree] at works
  rw [eq_of_works works]
  by_cases old : user ∈ s.userDirs
  · obtain ⟨d, present⟩ := Option.ne_none_iff_exists'.mp (Map.mem_iff_ne_none.mp old)
    rw [ensureUser_of_has (holds.represents.user user d present).1] at ensured
    cases ensured
    rfl
  · -- a new user's first file always fits
    rw [Storage.ensureUser, if_neg old, Map.getElem?_insert, if_pos rfl] at present
    cases present
    have fits : (∅ : Tree).Free path :=
      (FileTree.free_iff_of_tight FileTree.tight_empty FileTree.plain_empty).mpr
        ⟨fun q _ => FileTree.file?_empty q, fun q _ => FileTree.file?_empty q⟩
    have stored : ((∅ : Tree).put path temp).2 = true := FileTree.put_ok_iff.mpr fits
    cases stored.symm.trans failed

theorem Holds.remove (holds : Holds root disk s) (userValid : isValidUsername user = true)
    (path : Bytes) : Holds root (remove root disk user path).1 (s.remove user path).1 ∧
      (Disk.remove root disk user path).2 = (s.remove user path).2 ∧
      ((s.remove user path).2 = false → (Disk.remove root disk user path).1 = disk) := by
  have both : FileTree.Works (subdir (userDir root user)) disk (Disk.remove root disk user path).1
      ((userTree root disk user).delete path).1 ∧
      (Disk.remove root disk user path).2 = ((userTree root disk user).delete path).2 :=
    works_remove userValid disk path
  obtain ⟨works, same⟩ := both
  have unchanged : (Disk.remove root disk user path).2 = false →
      (Disk.remove root disk user path).1 = disk := by
    intro failed
    unfold Disk.remove at failed ⊢
    split at failed
    · cases failed
    · rfl
  cases present : s.userDirs[user]? with
  | some d =>
    have known : user ∈ s.userDirs := Map.mem_iff_ne_none.mpr (by rw [present]; nofun)
    obtain ⟨has, tree⟩ := holds.represents.user user d present
    rw [tree] at works same
    rw [Storage.remove, present]
    refine ⟨holds.works works (holds.represents.insert userValid has works), same, ?_⟩
    exact fun failed => unchanged (same.trans failed)
  | none =>
    have missing : user ∉ s.userDirs := fun mem => Map.mem_iff_ne_none.mp mem present
    have nothing : disk.node (filePath root user path) = none := by
      rw [filePath_eq userValid]
      exact FileTree.node_none_of_above (holds.absent user userValid missing)
        (mem_dirs_iff.mpr ⟨path, rfl⟩)
    have fails : disk.unlink (filePath root user path) = none := by
      rw [FileTree.unlink_eq_none_iff, nothing]
      exact fun both => both.1 rfl
    have failed : Disk.remove root disk user path = (disk, false) := by
      rw [Disk.remove, fails]
    rw [failed, Storage.remove, present]
    exact ⟨holds, rfl, fun _ => rfl⟩

/-- One change of the disk is that change of the store; one that is refused
changes nothing. -/
theorem Holds.apply (holds : Holds root disk s) {call : StoreCall} (valid : call.Valid) :
    Holds root (apply root disk call).1 (s.apply call).1 ∧
      (Disk.apply root disk call).2 = (s.apply call).2 ∧
      ((s.apply call).2 = false → (Disk.apply root disk call).1 = disk) := by
  cases call with
  | commit user path temp => exact holds.commit valid.1 valid.2 temp
  | remove user path => exact holds.remove valid.1 path

end Holds

/-! ## The result -/

theorem applyAll_holds {root : Bytes} {disk : Tree} {s : Storage} (holds : Holds root disk s)
    {calls : List StoreCall} (valid : ∀ call ∈ calls, call.Valid) :
    ∃ s', Holds root (applyAll root disk calls).1 s' ∧
      s'.contents = (s.contents.applyAll calls).1 ∧
      (applyAll root disk calls).2 = (s.contents.applyAll calls).2 := by
  induction calls generalizing disk s with
  | nil => exact ⟨s, holds, rfl, rfl⟩
  | cons call calls ih =>
    obtain ⟨one, result, -⟩ := holds.apply (valid call List.mem_cons_self)
    obtain ⟨contents, same⟩ := s.contents_apply call
    obtain ⟨s', reached, means, results⟩ := ih one fun c mem => valid c (List.mem_cons_of_mem _ mem)
    rw [contents] at means results
    refine ⟨s', reached, means, ?_⟩
    rw [applyAll, Contents.applyAll]
    dsimp only
    rw [results, result, same]

/-- **The store is one prefix-free map for each user.** In every run of `commit`
and `remove` on a store that starts empty, the calls return what the maps say, the
files of a user are the map, a call that returns false changes nothing on the disk,
and each folder below a user's directory has a file in it. -/
theorem run_refines {root : Bytes} {disk : Tree} {calls : List StoreCall} (empty : Empty root disk)
    (valid : ∀ call ∈ calls, call.Valid) :
    (applyAll root disk calls).2 = (Contents.applyAll (fun _ => ∅) calls).2 ∧
    (∀ user, isValidUsername user = true →
      (∀ path, ((userTree root (applyAll root disk calls).1 user).file? path).map File.content =
        ((Contents.applyAll (fun _ => ∅) calls).1 user).get path) ∧
      (userTree root (applyAll root disk calls).1 user).Tight) ∧
    ∀ call, call.Valid → (apply root (applyAll root disk calls).1 call).2 = false →
      (apply root (applyAll root disk calls).1 call).1 = (applyAll root disk calls).1 := by
  obtain ⟨s, holds, means, results⟩ := applyAll_holds empty.holds valid
  have start : (∅ : Storage).contents = fun _ => ∅ := by
    funext user
    ext1 path
    exact (congrArg (Option.map File.content) (Storage.file?_empty user path))
  rw [start] at means results
  refine ⟨results, fun user userValid => ?_, fun call callValid failed => ?_⟩
  · rw [← means]
    cases present : s.userDirs[user]? with
    | some d =>
      obtain ⟨-, tree⟩ := holds.represents.user user d present
      rw [tree]
      refine ⟨fun path => ?_, d.tight⟩
      rw [Storage.contents]
      simp only [Storage.content?, Storage.file?, present]
    | none =>
      have missing : user ∉ s.userDirs := fun mem => Map.mem_iff_ne_none.mp mem present
      have nothing : userTree root (applyAll root disk calls).1 user = ∅ := by
        refine FileTree.ext_node fun p => ?_
        rw [userTree, FileTree.node_sub, FileTree.node_empty]
        exact FileTree.node_none_of_above (holds.absent user userValid missing)
          (mem_dirs_iff.mpr ⟨p, rfl⟩)
      rw [nothing]
      refine ⟨fun path => ?_, FileTree.tight_empty⟩
      rw [Storage.contents]
      simp only [Storage.content?, Storage.file?, present, FileTree.file?_empty]
  · obtain ⟨-, same, unchanged⟩ := holds.apply callValid
    exact unchanged (same.symm.trans failed)

/-- A new store below `d`. -/
def newStore : Tree := (FileTree.mkdirs ∅ [bytes "d", bytes "d/users"]).1

/-- A file is stored, one in its place as a folder is refused, and the file removed. -/
def calls : List StoreCall :=
  let file : File := ⟨bytes "x", 0, by decide⟩
  [.commit (bytes "bob") (bytes "a/b") file, .commit (bytes "bob") (bytes "a") file,
    .remove (bytes "bob") (bytes "a/b")]

theorem run_refines_newStore : (applyAll (bytes "d") newStore calls).2 = [true, false, true] ∧
    (applyAll (bytes "d") newStore calls).2 = (Contents.applyAll (fun _ => ∅) calls).2 := by
  refine ⟨by decide +kernel, (run_refines ⟨by decide +kernel, fun p above => ?_⟩ ?_).1⟩
  · have keys : newStore.nodes.keys = [bytes "d", bytes "d/users"] := by decide +kernel
    by_contra present
    have mem : p ∈ newStore.nodes.keys := ExtTreeMap.mem_keys.mpr (Map.mem_iff_ne_none.mpr present)
    have nothing : ∀ q ∈ [bytes "d", bytes "d/users"], usersDir (bytes "d") ∉ dirs q := by
      decide +kernel
    exact nothing p (keys ▸ mem) above
  · intro call mem
    simp only [calls, List.mem_cons, List.not_mem_nil, or_false] at mem
    rcases mem with rfl | rfl | rfl
    all_goals exact ⟨by decide +kernel, by decide +kernel⟩

end Disk

end SisOp
