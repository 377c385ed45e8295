import SisOp.Common.Files

/-!
# The files of every user

`server/storage.cpp`. Each user has a directory holding a tree of files. The
two operations that change one, `commit` and `remove`, create the directories a
path needs and remove the ones it leaves empty, so a `UserDir` never holds an
empty directory (its own root apart) and never anything but files and
directories. What a store means to its clients is `Storage.content?`.

Hash values are computed from the contents here. `Storage::list` takes them from its
cache where size and modification time match; that the cache can be wrong after a
commit, and what follows for the comparison of stores, is in
`SisOp.Server.HashCache` and `SisOp.Cluster.Hashes`.
-/

namespace SisOp

open Lib Std

/-- One user's directory. -/
structure UserDir where
  tree : FileTree Bytes File
  tight : tree.Tight
  plain : tree.Plain

namespace UserDir

instance : EmptyCollection UserDir where
  emptyCollection := ⟨∅, FileTree.tight_empty, FileTree.plain_empty⟩

/-- `make_parent_dirs`, then `replace_file`. -/
def put (d : UserDir) (path : Bytes) (file : File) : UserDir where
  tree := (d.tree.put path file).1
  tight := d.tight.put path file
  plain := d.plain.put path file

/-- `remove_file`, then `remove_empty_parents`. -/
def delete (d : UserDir) (path : Bytes) : UserDir where
  tree := (d.tree.delete path).1
  tight := d.tight.delete d.plain path
  plain := d.plain.delete path

end UserDir

structure Storage where
  userDirs : ExtTreeMap Bytes UserDir

namespace Storage

instance : EmptyCollection Storage where
  emptyCollection := ⟨∅⟩

/-- The regular file at a user's path. -/
def file? (s : Storage) (user path : Bytes) : Option File :=
  match s.userDirs[user]? with
  | some d => d.tree.file? path
  | none => none

/-- The (user, path) → content map a store represents. -/
def content? (s : Storage) (user path : Bytes) : Option Bytes :=
  (s.file? user path).map File.content

/-- `Storage::ensure_user`. -/
def ensureUser (s : Storage) (user : Bytes) : Storage :=
  if user ∈ s.userDirs then s else ⟨s.userDirs.insert user ∅⟩

/-- `Storage::users`, in order. -/
def users (s : Storage) : List Bytes := s.userDirs.keys.filter isValidUsername

/-- `Storage::list`: every regular file with a valid path, in path order, hashed. -/
def list (s : Storage) (user : Bytes) : List FileInfo :=
  match s.userDirs[user]? with
  | some d => (d.tree.files.filter fun entry => isValidPath entry.1).map fun entry =>
      entry.2.info entry.1
  | none => []

/-- `Storage::commit` of a finished temporary file. -/
def commit (s : Storage) (user path : Bytes) (temp : File) : Storage × Bool :=
  match (s.ensureUser user).userDirs[user]? with
  | some d => (⟨(s.ensureUser user).userDirs.insert user (d.put path temp)⟩,
      (d.tree.put path temp).2)
  | none => (s.ensureUser user, false)

/-- `Storage::remove`. -/
def remove (s : Storage) (user path : Bytes) : Storage × Bool :=
  match s.userDirs[user]? with
  | some d => (⟨s.userDirs.insert user (d.delete path)⟩, (d.tree.delete path).2)
  | none => (s, false)

variable {s : Storage} {user path u p : Bytes} {f temp : File}

@[simp] theorem file?_empty (u p : Bytes) : (∅ : Storage).file? u p = none := by
  have absent : (∅ : Storage).userDirs[u]? = none := ExtTreeMap.getElem?_empty
  simp only [file?, absent]

@[simp] theorem file?_ensureUser (s : Storage) (user u p : Bytes) :
    (s.ensureUser user).file? u p = s.file? u p := by
  unfold ensureUser
  split
  · rfl
  · rename_i absent
    simp only [file?, Map.getElem?_insert]
    by_cases same : u = user
    · subst u
      simp only [if_true, ExtTreeMap.getElem?_eq_none absent]
      exact FileTree.file?_empty p
    · simp only [if_neg same]

/-- After `ensure_user` the user has a directory. -/
theorem ensureUser_present (s : Storage) (user : Bytes) :
    ∃ d, (s.ensureUser user).userDirs[user]? = some d := by
  rw [← Option.ne_none_iff_exists', ← Map.mem_iff_ne_none]
  unfold ensureUser
  split
  · assumption
  · exact Map.mem_insert_iff.mpr (.inl rfl)

/-- `commit` puts the file into the directory of the user. -/
theorem commit_eq (s : Storage) (user path : Bytes) (temp : File) :
    ∃ d, (s.ensureUser user).userDirs[user]? = some d ∧ s.commit user path temp =
      (⟨(s.ensureUser user).userDirs.insert user (d.put path temp)⟩, (d.tree.put path temp).2) := by
  obtain ⟨d, present⟩ := ensureUser_present s user
  exact ⟨d, present, by rw [commit, present]⟩

/-- A successful commit stores the file and changes no other. -/
theorem file?_commit (ok : (s.commit user path temp).2 = true) (u p : Bytes) :
    (s.commit user path temp).1.file? u p =
      if u = user ∧ p = path then some temp else s.file? u p := by
  obtain ⟨d, present, eq⟩ := commit_eq s user path temp
  rw [eq] at ok ⊢
  have before : ∀ q, s.file? user q = d.tree.file? q := fun q => by
    rw [← file?_ensureUser s user, file?, present]
  rw [← file?_ensureUser s user u p]
  simp only [file?, Map.getElem?_insert]
  by_cases same : u = user
  · subst u
    simp only [if_true, true_and, present, UserDir.put]
    exact FileTree.file?_put ok p
  · simp only [same, false_and, if_false]

/-- A refused commit changes no file. -/
theorem file?_commit_of_fail (failed : (s.commit user path temp).2 = false) (u p : Bytes) :
    (s.commit user path temp).1.file? u p = s.file? u p := by
  obtain ⟨d, present, eq⟩ := commit_eq s user path temp
  rw [eq] at failed ⊢
  rw [← file?_ensureUser s user u p]
  simp only [file?, Map.getElem?_insert]
  by_cases same : u = user
  · subst u
    simp only [if_true, present, UserDir.put, FileTree.put_of_fail failed]
  · rw [if_neg same]

/-- No file lies above the path or below it. -/
def Fits (s : Storage) (user path : Bytes) : Prop :=
  (∀ q ∈ dirs path, s.file? user q = none) ∧ ∀ q, path ∈ dirs q → s.file? user q = none

/-- A commit goes through exactly when the path fits next to the other files. -/
theorem commit_ok_iff : (s.commit user path temp).2 = true ↔ s.Fits user path := by
  obtain ⟨d, present, eq⟩ := commit_eq s user path temp
  have before : ∀ q, s.file? user q = d.tree.file? q := fun q => by
    rw [← file?_ensureUser s user, file?, present]
  simp only [Fits, eq, FileTree.put_ok_iff, FileTree.free_iff_of_tight d.tight d.plain, before]
  rfl

/-- Removing a path changes no other file. -/
theorem file?_remove (s : Storage) (user path u p : Bytes) :
    (s.remove user path).1.file? u p =
      if u = user ∧ p = path then none else s.file? u p := by
  unfold remove
  cases present : s.userDirs[user]? with
  | some d =>
    simp only [file?, Map.getElem?_insert]
    by_cases same : u = user
    · subst u
      simp only [if_true, true_and, present, UserDir.delete]
      exact FileTree.file?_delete d.tree path p
    · simp only [same, false_and, if_false]
  | none =>
    by_cases same : u = user ∧ p = path
    · rw [if_pos same, same.1]
      simp only [file?, present]
    · rw [if_neg same]

/-- A removal succeeds exactly when there is such a file. -/
theorem remove_ok_iff : (s.remove user path).2 = true ↔ s.file? user path ≠ none := by
  unfold remove file?
  cases s.userDirs[user]? with
  | some d =>
    simp only [FileTree.delete_ok_iff, FileTree.isDir_eq_false_iff, ne_eq,
      FileTree.file?_eq_none_iff]
    constructor
    · rintro ⟨present, notDir⟩ noFile
      cases node : d.tree.node path with
      | none => exact present node
      | some n =>
        cases n with
        | file f => exact noFile f node
        | dir => exact notDir node
        | link => exact d.plain path node
    · intro file
      obtain ⟨f, node⟩ : ∃ f, d.tree.node path = some (.file f) := by
        simpa only [not_forall, not_not] using file
      rw [node]
      exact ⟨nofun, nofun⟩
  | none => simp

/-- A removal that fails changes nothing. -/
theorem file?_remove_of_fail (failed : (s.remove user path).2 = false) (u p : Bytes) :
    (s.remove user path).1.file? u p = s.file? u p := by
  rw [file?_remove]
  split
  · rename_i same
    rw [same.1, same.2, eq_comm]
    by_contra present
    rw [remove_ok_iff.mpr present] at failed
    cases failed
  · rfl

/-- Files are prefix-free: no file lies above another. -/
theorem file?_none_of_mem_dirs (present : s.file? user p ≠ none) (above : path ∈ dirs p) :
    s.file? user path = none := by
  unfold file? at present ⊢
  cases dir : s.userDirs[user]? with
  | none => rfl
  | some d =>
    rw [dir] at present
    refine FileTree.not_file_above (p := p) (fun absent => present ?_) above
    simp only [FileTree.file?, absent]

theorem content?_eq_none_iff : s.content? u p = none ↔ s.file? u p = none :=
  Option.map_eq_none_iff

/-- The content stored is that of the path committed, and no other's is changed. -/
theorem content?_commit (ok : (s.commit user path temp).2 = true) (u p : Bytes) :
    (s.commit user path temp).1.content? u p =
      if u = user ∧ p = path then some temp.content else s.content? u p := by
  rw [content?, file?_commit ok]
  split <;> rfl

theorem content?_commit_of_fail (failed : (s.commit user path temp).2 = false) (u p : Bytes) :
    (s.commit user path temp).1.content? u p = s.content? u p := by
  rw [content?, file?_commit_of_fail failed, content?]

/-- No other content is changed by a removal. -/
theorem content?_remove (s : Storage) (user path u p : Bytes) :
    (s.remove user path).1.content? u p =
      if u = user ∧ p = path then none else s.content? u p := by
  rw [content?, file?_remove]
  split <;> rfl

/-! ## Names -/

/-- Every user name and path in the store passed validation. -/
structure Valid (s : Storage) : Prop where
  user : ∀ u ∈ s.userDirs, isValidUsername u = true
  path : ∀ u p, s.file? u p ≠ none → isValidPath p = true

theorem valid_empty : (∅ : Storage).Valid where
  user _ mem := (ExtTreeMap.not_mem_empty mem).elim
  path u p present := (present (file?_empty u p)).elim

/-- The names stay valid through the calls of the handlers. -/
theorem Valid.ensureUser (valid : s.Valid) (userValid : isValidUsername user = true) :
    (s.ensureUser user).Valid where
  user u mem := by
    unfold Storage.ensureUser at mem
    split at mem
    · exact valid.user u mem
    · rcases Map.mem_insert_iff.mp mem with rfl | mem
      · exact userValid
      · exact valid.user u mem
  path u p present := by
    rw [file?_ensureUser] at present
    exact valid.path u p present

theorem Valid.commit (valid : s.Valid) (userValid : isValidUsername user = true)
    (pathValid : isValidPath path = true) : (s.commit user path temp).1.Valid where
  user u mem := by
    obtain ⟨d, -, eq⟩ := commit_eq s user path temp
    rw [eq] at mem
    rcases Map.mem_insert_iff.mp mem with rfl | mem
    · exact userValid
    · exact (valid.ensureUser userValid).user u mem
  path u p present := by
    cases ok : (s.commit user path temp).2 with
    | true =>
      rw [file?_commit ok] at present
      split at present
      · rename_i same
        rw [same.2]
        exact pathValid
      · exact valid.path u p present
    | false =>
      rw [file?_commit_of_fail ok] at present
      exact valid.path u p present

theorem Valid.remove (valid : s.Valid) : (s.remove user path).1.Valid where
  user u mem := by
    unfold Storage.remove at mem
    cases present : s.userDirs[user]? with
    | some d =>
      rw [present] at mem
      rcases Map.mem_insert_iff.mp mem with rfl | mem
      · exact valid.user u (Map.mem_iff_ne_none.mpr (by rw [present]; nofun))
      · exact valid.user u mem
    | none =>
      rw [present] at mem
      exact valid.user u mem
  path u p present := by
    rw [file?_remove] at present
    split at present
    · exact (present rfl).elim
    · exact valid.path u p present

/-! ## Listings -/

/-- `list` reports the files with valid paths, each with what is on disk. -/
theorem mem_list_iff {info : FileInfo} : info ∈ s.list user ↔
    ∃ f, s.file? user info.name = some f ∧ isValidPath info.name = true ∧
      info = f.info info.name := by
  unfold list file?
  cases s.userDirs[user]? with
  | some d =>
    simp only [List.mem_map, List.mem_filter, Prod.exists, FileTree.mem_files_iff]
    constructor
    · rintro ⟨p, f, ⟨file, valid⟩, rfl⟩
      exact ⟨f, file, valid, rfl⟩
    · rintro ⟨f, file, valid, eq⟩
      exact ⟨info.name, f, ⟨file, valid⟩, eq.symm⟩
  | none => simp

/-- `users` reports the directories, all of which have valid names. -/
theorem mem_users_iff (valid : s.Valid) : user ∈ s.users ↔ user ∈ s.userDirs := by
  rw [users, List.mem_filter, ExtTreeMap.mem_keys]
  exact ⟨And.left, fun mem => ⟨mem, valid.user user mem⟩⟩

theorem mem_userDirs_of_file? (present : s.file? user p ≠ none) : user ∈ s.userDirs := by
  rw [Map.mem_iff_ne_none]
  intro absent
  rw [file?, absent] at present
  exact present rfl

end Storage

end SisOp
