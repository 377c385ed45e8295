import SisOp.Server.Storage
import SisOp.Common.Listing

/-!
# What the server lists

`Storage::list` and `Storage::users` with any choice of the calls that fail, and
with the cache that saves hashing a file again while its size and modification
time stay the same. The cache is shared by all users; its keys are the full paths
of the files.
-/

namespace SisOp

open Lib Std

/-! ## Where a file is stored -/

/-- `users_dir_` of a store. -/
def usersDir (root : Bytes) : Bytes := joinPath root (bytes "users")

/-- `Storage::user_dir`. -/
def userDir (root user : Bytes) : Bytes := joinPath (usersDir root) user

/-- `Storage::file_path`. -/
def filePath (root user path : Bytes) : Bytes := joinPath (userDir root user) path

theorem slash_not_mem_of_isValidUsername {user : Bytes} (valid : isValidUsername user = true) :
    slash ∉ user := by
  intro mem
  unfold isValidUsername at valid
  split at valid
  · cases valid
  · exact absurd (List.all_eq_true.mp valid slash mem) (by decide)

theorem ne_nil_of_isValidUsername {user : Bytes} (valid : isValidUsername user = true) :
    user ≠ [] := by
  rintro rfl
  cases valid

/-- The users' directories lie side by side below one directory. -/
theorem userDir_eq (root user : Bytes) : userDir root user = usersDir root ++ slash :: user := by
  have users : ∃ front, usersDir root = front ++ bytes "users" := by
    unfold usersDir joinPath
    split
    · exact ⟨root, rfl⟩
    · exact ⟨root ++ [slash], by rw [List.append_assoc, List.singleton_append]⟩
  obtain ⟨front, eq⟩ := users
  rw [userDir, eq, joinPath_of_plain (by decide) (by decide)]

theorem filePath_eq {root user : Bytes} (valid : isValidUsername user = true) (path : Bytes) :
    filePath root user path = userDir root user ++ slash :: path := by
  rw [filePath, userDir_eq, List.append_cons,
    joinPath_of_plain (ne_nil_of_isValidUsername valid) (slash_not_mem_of_isValidUsername valid)]

private theorem append_slash_inj {a b x y : Bytes} (left : slash ∉ a) (right : slash ∉ b)
    (same : a ++ slash :: x = b ++ slash :: y) : a = b ∧ x = y := by
  rcases List.append_eq_append_iff.mp same with ⟨more, rfl, eq⟩ | ⟨more, rfl, eq⟩
  · cases more with
    | nil => exact ⟨(List.append_nil a).symm, (List.cons.inj eq).2⟩
    | cons c more =>
      obtain rfl : slash = c := (List.cons.inj eq).1
      exact absurd (List.mem_append_right _ List.mem_cons_self) right
  · cases more with
    | nil => exact ⟨List.append_nil b, (List.cons.inj eq).2.symm⟩
    | cons c more =>
      obtain rfl : slash = c := (List.cons.inj eq).1
      exact absurd (List.mem_append_right _ List.mem_cons_self) left

/-- Different users and paths have different files. -/
theorem filePath_inj {root user path u p : Bytes} (userValid : isValidUsername user = true)
    (uValid : isValidUsername u = true) :
    filePath root user path = filePath root u p ↔ user = u ∧ path = p := by
  constructor
  · intro same
    rw [filePath_eq userValid, filePath_eq uValid, userDir_eq, userDir_eq, List.append_assoc,
      List.append_assoc, List.append_cancel_left_eq, List.cons_append, List.cons_append,
      List.cons.injEq] at same
    exact append_slash_inj (slash_not_mem_of_isValidUsername userValid)
      (slash_not_mem_of_isValidUsername uValid) same.2
  · rintro ⟨rfl, rfl⟩
    rfl

/-! ## Hashes that are not computed again -/

/-- `hash_cache_`: what was listed of the file with a full path. -/
abbrev HashCache := ExtTreeMap Bytes FileInfo

/-- The saved hash of a file that still has the saved size and time. -/
def HashCache.lookUp (cache : HashCache) (path name : Bytes) (file : File) : Option UInt64 :=
  match cache[path]? with
  | some saved =>
    if saved.size = (file.info name).size ∧
      saved.mtimeNs = file.mtime then some saved.hash else none
  | none => none

/-- One file of `Storage::list`; a file that cannot be hashed is skipped. -/
def listFile (faults : Faults) (tree : FileTree Bytes File) (path name : Bytes) (file : File)
    (cache : HashCache) :
    Option FileInfo × HashCache :=
  match cache.lookUp path name file with
  | some hash => (some { file.info name with hash }, cache)
  | none =>
    match hashFile faults tree name with
    | some hash =>
      (some { file.info name with hash }, cache.insert path { file.info name with hash })
    | none => (none, cache)

/-- The loop of `Storage::list`; `path` is `file_path` of the user. -/
def listFiles (faults : Faults) (tree : FileTree Bytes File) (path : Bytes → Bytes) :
    List (Bytes × File) → HashCache → List FileInfo × HashCache
  | [], cache => ([], cache)
  | (name, file) :: files, cache =>
    let one := listFile faults tree (path name) name file cache
    let rest := listFiles faults tree path files one.2
    (one.1.toList ++ rest.1, rest.2)

/-- `Storage::list` of the user with this tree of files. -/
def listUser (faults : Faults) (tree : FileTree Bytes File) (path : Bytes → Bytes)
    (cache : HashCache) : List FileInfo × HashCache :=
  listFiles faults tree path (listTree faults tree) cache

section Listed

variable {tree : FileTree Bytes File} {faults : Faults} {path : Bytes → Bytes} {cache : HashCache}
  {name p : Bytes} {file f : File}

/-- A file listed is hashed already or can be. -/
theorem listFile_isSome (present : tree.file? name = some file) :
    (listFile faults tree (path name) name file cache).1.isSome = true ↔
      (cache.lookUp (path name) name file).isSome = true ∨ faults.hashes name = true := by
  unfold listFile hashFile
  rw [present]
  cases cache.lookUp (path name) name file with
  | some hash => simp
  | none => cases faults.hashes name <;> simp

theorem name_of_listFile {info : FileInfo}
    (listed : (listFile faults tree (path name) name file cache).1 = some info) :
    info.name = name := by
  unfold listFile at listed
  repeat' split at listed
  all_goals first | cases listed; rfl | cases listed

/-- What a file adds to the cache changes no other answer of the cache. -/
theorem cached_listFile (distinct : ∀ p q, path p = path q ↔ p = q)
    (present : tree.file? name = some file) (there : tree.file? p = some f) :
    ((listFile faults tree (path name) name file cache).2.lookUp (path p) p f).isSome = true ∨
        faults.hashes p = true ↔
      (cache.lookUp (path p) p f).isSome = true ∨ faults.hashes p = true := by
  unfold listFile hashFile
  rw [present]
  cases cached : cache.lookUp (path name) name file with
  | some hash => rfl
  | none =>
    cases readable : faults.hashes name with
    | false => rfl
    | true =>
      by_cases same : p = name
      · subst p
        simp only [readable, or_true]
      · have other :
            (cache.insert (path name) { file.info name with hash := fnv1a file.content })[path p]? =
            cache[path p]? := by
          rw [Map.getElem?_insert, if_neg fun eq => same ((distinct p name).mp eq)]
        simp only [if_true, Option.map_some, HashCache.lookUp, other]

theorem listed_listFiles (distinct : ∀ p q, path p = path q ↔ p = q)
    {files : List (Bytes × File)} (stored : ∀ entry ∈ files, tree.file? entry.1 = some entry.2)
    (there : tree.file? p = some f) (cache : HashCache) :
    (∃ info ∈ (listFiles faults tree path files cache).1, info.name = p) ↔
      (p, f) ∈ files ∧ ((cache.lookUp (path p) p f).isSome = true ∨ faults.hashes p = true) := by
  induction files generalizing cache with
  | nil => simp [listFiles]
  | cons entry files ih =>
    obtain ⟨name, file⟩ := entry
    have present : tree.file? name = some file := stored _ List.mem_cons_self
    have rest := ih (fun entry mem => stored entry (List.mem_cons_of_mem _ mem))
      (listFile faults tree (path name) name file cache).2
    rw [cached_listFile distinct present there] at rest
    have first : (∃ info ∈ (listFile faults tree (path name) name file cache).1.toList,
      info.name = p) ↔
        (p, f) = (name, file) ∧
          ((cache.lookUp (path p) p f).isSome = true ∨ faults.hashes p = true) := by
      constructor
      · rintro ⟨info, mem, rfl⟩
        have listed := Option.mem_toList.mp mem
        obtain rfl := name_of_listFile listed
        obtain rfl : file = f := Option.some.inj (present.symm.trans there)
        refine ⟨rfl, (listFile_isSome present).mp ?_⟩
        rw [Option.mem_def.mp listed, Option.isSome_some]
      · rintro ⟨same, readable⟩
        obtain ⟨rfl, rfl⟩ := Prod.mk.inj same
        obtain ⟨info, listed⟩ :=
          Option.isSome_iff_exists.mp ((listFile_isSome present).mpr readable)
        exact ⟨info, Option.mem_toList.mpr listed, name_of_listFile listed⟩
    simp only [listFiles, List.mem_append, or_and_right, exists_or, first, rest, List.mem_cons]

/-- A listing changes the cache at the files it lists. -/
theorem cache_listFiles {k : Bytes} (other : ∀ name, k ≠ path name) (files : List (Bytes × File))
    (cache : HashCache) : (listFiles faults tree path files cache).2[k]? = cache[k]? := by
  induction files generalizing cache with
  | nil => rfl
  | cons entry files ih =>
    obtain ⟨name, file⟩ := entry
    rw [listFiles, ih, listFile]
    split
    · rfl
    · split
      · rw [Map.getElem?_insert, if_neg (other name)]
      · rfl

/-- A listing looks only at the cached hashes of the files it lists. -/
theorem listFiles_congr {cache cache' : HashCache}
    (same : ∀ name, cache[path name]? = cache'[path name]?) (files : List (Bytes × File)) :
    (listFiles faults tree path files cache).1 = (listFiles faults tree path files cache').1 ∧
      ∀ name, (listFiles faults tree path files cache).2[path name]? =
        (listFiles faults tree path files cache').2[path name]? := by
  induction files generalizing cache cache' with
  | nil => exact ⟨rfl, same⟩
  | cons entry files ih =>
    obtain ⟨name, file⟩ := entry
    have one : (listFile faults tree (path name) name file cache).1 =
          (listFile faults tree (path name) name file cache').1 ∧
        ∀ n, (listFile faults tree (path name) name file cache).2[path n]? =
          (listFile faults tree (path name) name file cache').2[path n]? := by
      unfold listFile HashCache.lookUp
      rw [same name]
      split
      · exact ⟨rfl, same⟩
      · split
        · refine ⟨rfl, fun n => ?_⟩
          rw [Map.getElem?_insert, Map.getElem?_insert, same n]
        · exact ⟨rfl, same⟩
    obtain ⟨rest, after⟩ := ih one.2
    exact ⟨by rw [listFiles, listFiles, one.1, rest], after⟩

/-- **What a listing omits.** A stored file is listed when its path is valid, no
call on the way to it fails, and its hash is in the cache or can be computed. -/
theorem listed_iff (distinct : ∀ p q, path p = path q ↔ p = q) (there : tree.file? p = some f) :
    (∃ info ∈ (listUser faults tree path cache).1, info.name = p) ↔
      isValidPath p = true ∧ faults.reaches p = true ∧
        ((cache.lookUp (path p) p f).isSome = true ∨ faults.hashes p = true) := by
  have stored : ∀ entry ∈ listTree faults tree, tree.file? entry.1 = some entry.2 :=
    fun _ mem => (mem_listTree_iff.mp mem).1
  rw [listUser, listed_listFiles distinct stored there, mem_listTree_iff,
    and_iff_right there, and_assoc]

end Listed

/-- `Storage::list` of the user with this directory. -/
def UserDir.list (d : UserDir) (faults : Faults) (path : Bytes → Bytes) (cache : HashCache) :
    List FileInfo × HashCache :=
  listUser faults d.tree path cache

/-! ## Lists of a store -/

/-- The calls that fail on a store: those of `Storage::users` and, by user, those
of `Storage::list`. -/
structure StoreFaults where
  opendir : Bool
  stat : Bytes → Bool
  files : Bytes → Faults

namespace Storage

/-- `Storage::users`. -/
def usersFound (s : Storage) (faults : StoreFaults) : List Bytes :=
  if faults.opendir then [] else s.users.filter fun user => !faults.stat user

/-- `Storage::list`. -/
def listFound (s : Storage) (root : Bytes) (faults : StoreFaults) (user : Bytes)
    (cache : HashCache) :
    List FileInfo × HashCache :=
  match s.userDirs[user]? with
  | some d => d.list (faults.files user) (filePath root user) cache
  | none => ([], cache)

variable {s : Storage} {root user u p : Bytes} {faults : StoreFaults} {cache : HashCache} {f : File}

theorem mem_usersFound_iff (present : s.file? user p ≠ none) :
    user ∈ s.usersFound faults ↔
      isValidUsername user = true ∧ faults.opendir = false ∧ faults.stat user = false := by
  unfold usersFound
  cases faults.opendir with
  | true => simp
  | false =>
    rw [if_neg Bool.false_ne_true, List.mem_filter, users, List.mem_filter, ExtTreeMap.mem_keys,
      and_iff_right (mem_userDirs_of_file? present), Bool.not_eq_true', and_iff_right rfl]

theorem isValidUsername_of_mem_usersFound (mem : user ∈ s.usersFound faults) :
    isValidUsername user = true := by
  unfold usersFound at mem
  split at mem
  · cases mem
  · exact (List.mem_filter.mp (List.mem_filter.mp mem).1).2

/-- The listing of one user leaves the hashes of the others. -/
theorem lookUp_listFound (valid : isValidUsername user = true) (uValid : isValidUsername u = true)
    (other : u ≠ user) (name : Bytes) (file : File) :
    (s.listFound root faults user cache).2.lookUp (filePath root u p) name file =
      cache.lookUp (filePath root u p) name file := by
  have same : (s.listFound root faults user cache).2[filePath root u p]? =
      cache[filePath root u p]? := by
    unfold listFound
    split
    · exact cache_listFiles (fun name eq => other ((filePath_inj uValid valid).mp eq).1) _ _
    · rfl
  simp only [HashCache.lookUp, same]

theorem listed_iff (valid : isValidUsername user = true) (there : s.file? user p = some f) :
    (∃ info ∈ (s.listFound root faults user cache).1, info.name = p) ↔
      isValidPath p = true ∧ (faults.files user).reaches p = true ∧
        ((cache.lookUp (filePath root user p) p f).isSome = true ∨
          (faults.files user).hashes p = true) := by
  unfold file? at there
  unfold listFound
  cases dir : s.userDirs[user]? with
  | none =>
    rw [dir] at there
    cases there
  | some d =>
    rw [dir] at there
    exact SisOp.listed_iff
      (fun p q => (filePath_inj valid valid).trans (and_iff_right rfl)) there

end Storage

end SisOp
