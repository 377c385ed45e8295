import SisOp.Common.Listing
import Mathlib.Data.List.Induction

/-!
# Listing a directory tree

`walk` and `list_tree` of `common/files.cpp` on directory trees of any depth, with
links and special files, whose entries come in any order. The walk leaves names out
one by one and stops at a depth; whole paths are what is valid or not.

Main result: `listed_exactly`, the listing has every file with a valid path that is
reached without a link, once, in the order of the paths.
-/

namespace SisOp.Walk

open Lib Std

/-! ## Trees -/

/-- What `lstat` finds at a directory entry. -/
inductive Inode where
  | regular (file : File)
  | directory (entries : List (Bytes × Inode))
  | link (target : Bytes)
  | special

abbrev Entries := List (Bytes × Inode)

/-- A file system has no name twice in a directory, and no name with a `/`. -/
inductive Proper : Entries → Prop
  | intro {entries : Entries} (distinct : (entries.map Prod.fst).Nodup)
      (plain : ∀ entry ∈ entries, slash ∉ entry.1)
      (below : ∀ name sub, (name, .directory sub) ∈ entries → Proper sub) : Proper entries

/-- A directory tree; the root is what `opendir` opens, be it reached by a link or not. -/
structure Tree where
  entries : Entries
  proper : Proper entries

/-- A regular file is reached by entering directories. -/
inductive Reached : Entries → List Bytes → File → Prop
  | here {entries : Entries} {name : Bytes} {file : File} (mem : (name, .regular file) ∈ entries) :
      Reached entries [name] file
  | inside {entries sub : Entries} {name : Bytes} {names : List Bytes} {file : File}
      (mem : (name, .directory sub) ∈ entries) (rest : Reached sub names file) :
      Reached entries (name :: names) file

/-! ## The walk -/

/-- The path of an entry; the root itself is empty. -/
def relativePath (dir name : Bytes) : Bytes := if dir.isEmpty then name else dir ++ slash :: name

/-- What the walk knows of a file: its hash is not computed. -/
def found (path : Bytes) (file : File) : FileInfo := { file.info path with hash := 0 }

/-- What is pushed to the list for the entries of a directory. -/
def walk (dir : Bytes) (depth : Nat) (entries : Entries) : List FileInfo :=
  entries.flatMap fun entry =>
    if !isValidFileName entry.1 then []
    else
      match entry.2 with
      | .directory sub =>
        if _ : depth + 1 < MAX_PATH_DEPTH then walk (relativePath dir entry.1)
          (depth + 1) sub else []
      | .regular file =>
        if isValidPath (relativePath dir entry.1) then
          [found (relativePath dir entry.1) file] else []
      | _ => []
termination_by MAX_PATH_DEPTH - depth

/-- What is pushed for one entry. -/
def visit (dir : Bytes) (depth : Nat) (entry : Bytes × Inode) : List FileInfo :=
  if !isValidFileName entry.1 then []
  else
    match entry.2 with
    | .directory sub =>
      if depth + 1 < MAX_PATH_DEPTH then walk (relativePath dir entry.1) (depth + 1) sub else []
    | .regular file =>
      if isValidPath (relativePath dir entry.1) then [found (relativePath dir entry.1) file] else []
    | _ => []

theorem walk_eq (dir : Bytes) (depth : Nat) (entries : Entries) :
    walk dir depth entries = entries.flatMap (visit dir depth) := by
  rw [walk]
  refine List.flatMap_congr fun entry _ => ?_
  unfold visit
  rfl

def listTree (tree : Tree) : List FileInfo :=
  (walk [] 0 tree.entries).mergeSort fun a b => (compare a.name b.name).isLE

/-! ## Paths of names -/

/-- The path the walk makes of the names on the way. -/
def path (names : List Bytes) : Bytes := names.foldl relativePath []

def Names (names : List Bytes) : Prop := ∀ name ∈ names, isValidFileName name = true

variable {names above : List Bytes} {name : Bytes}

theorem path_concat (names : List Bytes) (name : Bytes) :
    path (names ++ [name]) = relativePath (path names) name := by
  rw [path, List.foldl_append, List.foldl_cons, List.foldl_nil, path]

theorem plain_of_valid (valid : isValidFileName name = true) : name ≠ [] ∧ slash ∉ name := by
  have parts := isValidFileName_iff.mp valid
  exact ⟨parts.1, fun mem => (parts.2.2.2.2.2 slash mem).1 rfl⟩

/-- Valid names are the components of their path. -/
theorem splitOn_path (valid : Names names) (some : names ≠ []) :
    (path names).splitOn slash = names := by
  induction names using List.reverseRecOn with
  | nil => exact absurd rfl some
  | append_singleton names name ih =>
    have plain := plain_of_valid (valid name (List.mem_append_right _ (List.mem_singleton_self _)))
    rw [path_concat, relativePath]
    cases names with
    | nil => exact List.splitOn_eq_singleton plain.2
    | cons first rest =>
      have front := ih (fun n mem => valid n (List.mem_append_left _ mem)) (List.cons_ne_nil _ _)
      have filled : path (first :: rest) ≠ [] := by
        intro empty
        rw [empty, List.splitOn_nil] at front
        have bad := plain_of_valid (valid first (List.mem_append_left _ List.mem_cons_self))
        exact bad.1 (List.cons.inj front).1.symm
      rw [if_neg fun empty => filled (List.isEmpty_iff.mp empty), List.splitOn_append_cons_self,
        front, List.splitOn_eq_singleton plain.2]

theorem path_eq (valid : Names names) (some : names ≠ []) :
    path names = [slash].intercalate names := by
  have joined : [slash].intercalate ((path names).splitOn slash) = path names :=
    List.intercalate_splitOn slash
  rw [← joined, splitOn_path valid some]

/-- The components of a valid path are valid names, not too many. -/
theorem names_of_valid (plain : ∀ name ∈ names, slash ∉ name) (some : names ≠ [])
    (valid : isValidPath ([slash].intercalate names) = true) :
    Names names ∧ names.length ≤ MAX_PATH_DEPTH := by
  unfold isValidPath at valid
  split at valid
  · cases valid
  · dsimp only at valid
    rw [List.splitOn_intercalate slash plain some, Bool.and_eq_true, List.all_eq_true,
      decide_eq_true_eq] at valid
    exact valid

/-! ## What the walk finds -/

variable {entries sub : Entries} {entry : Bytes × Inode} {info : FileInfo} {file : File}

theorem Reached.ne_nil (reached : Reached entries names file) : names ≠ [] := by
  cases reached <;> exact List.cons_ne_nil _ _

/-- A file is reached by one of the entries. -/
theorem reached_iff :
    Reached entries names file ↔ ∃ entry ∈ entries, Reached [entry] names file := by
  constructor
  · intro reached
    cases reached with
    | here mem => exact ⟨_, mem, .here (List.mem_singleton_self _)⟩
    | inside mem rest => exact ⟨_, mem, .inside (List.mem_singleton_self _) rest⟩
  · rintro ⟨entry, mem, reached⟩
    cases reached with
    | here only => exact .here (List.mem_singleton.mp only ▸ mem)
    | inside only rest => exact .inside (List.mem_singleton.mp only ▸ mem) rest

/-- What is to be found in a directory with the names `above` on the way to it. -/
def Finds (above : List Bytes) (entries : Entries) (info : FileInfo) : Prop :=
  ∃ names file, Reached entries names file ∧ Names names ∧
    above.length + names.length ≤ MAX_PATH_DEPTH ∧
      isValidPath (path (above ++ names)) = true ∧ info = found (path (above ++ names)) file

theorem finds_iff : Finds above entries info ↔ ∃ entry ∈ entries, Finds above [entry] info := by
  unfold Finds
  constructor
  · rintro ⟨names, file, reached, rest⟩
    obtain ⟨entry, mem, single⟩ := reached_iff.mp reached
    exact ⟨entry, mem, names, file, single, rest⟩
  · rintro ⟨entry, mem, names, file, single, rest⟩
    exact ⟨names, file, reached_iff.mpr ⟨entry, mem, single⟩, rest⟩

theorem finds_regular (short : above.length < MAX_PATH_DEPTH) :
    Finds above [(name, .regular file)] info ↔ isValidFileName name = true ∧
      isValidPath (path (above ++ [name])) = true ∧ info = found (path (above ++ [name])) file := by
  constructor
  · rintro ⟨names, file', reached, names_, -, valid, eq⟩
    cases reached with
    | here only =>
      cases List.mem_singleton.mp only
      exact ⟨names_ name (List.mem_singleton_self _), valid, eq⟩
    | inside only => cases List.mem_singleton.mp only
  · rintro ⟨named, valid, eq⟩
    refine ⟨[name], file, .here (List.mem_singleton_self _), fun n mem => ?_, short, valid, eq⟩
    rwa [List.mem_singleton.mp mem]

theorem finds_directory : Finds above [(name, .directory sub)] info ↔
    isValidFileName name = true ∧ Finds (above ++ [name]) sub info := by
  unfold Finds
  constructor
  · rintro ⟨names, file, reached, names_, short, rest⟩
    cases reached with
    | here only => cases List.mem_singleton.mp only
    | inside only deeper =>
      cases List.mem_singleton.mp only
      rename_i names
      refine ⟨names_ name List.mem_cons_self, names, file, deeper,
        fun n mem => names_ n (List.mem_cons_of_mem _ mem), ?_, ?_⟩
      · rw [List.length_cons] at short
        rw [List.length_append, List.length_singleton]
        omega
      · rwa [← List.append_cons]
  · rintro ⟨named, names, file, deeper, names_, short, rest⟩
    rw [← List.append_cons] at rest
    refine ⟨name :: names, file, .inside (List.mem_singleton_self _) deeper,
      List.forall_mem_cons.mpr ⟨named, names_⟩, ?_, rest⟩
    rw [List.length_append, List.length_singleton] at short
    rw [List.length_cons]
    omega

/-- Nothing is to be found below the last level. -/
theorem not_finds (deep : MAX_PATH_DEPTH ≤ above.length) : ¬Finds above entries info := by
  rintro ⟨names, file, reached, -, short, -⟩
  have some := List.length_pos_of_ne_nil reached.ne_nil
  omega

theorem finds_other (node : Inode)
    (other : (∀ f, node ≠ .regular f) ∧ ∀ sub, node ≠ .directory sub) :
    ¬Finds above [(name, node)] info := by
  rintro ⟨names, file, reached, -⟩
  cases reached with
  | here only => exact other.1 _ (Prod.mk.inj (List.mem_singleton.mp only)).2.symm
  | inside only => exact other.2 _ (Prod.mk.inj (List.mem_singleton.mp only)).2.symm

theorem name_of_finds {node : Inode} (finds : Finds above [(name, node)] info) :
    isValidFileName name = true := by
  obtain ⟨names, file, reached, names_, -⟩ := finds
  cases reached with
  | here only =>
    cases List.mem_singleton.mp only
    exact names_ name (List.mem_singleton_self _)
  | inside only =>
    cases List.mem_singleton.mp only
    exact names_ name List.mem_cons_self

/-- The walk of a directory finds what is to be found there. -/
theorem mem_walk_iff (above : List Bytes) (entries : Entries)
    (short : above.length < MAX_PATH_DEPTH) :
    info ∈ walk (path above) above.length entries ↔ Finds above entries info := by
  rw [walk_eq, List.mem_flatMap, finds_iff]
  refine exists_congr fun entry => and_congr_right fun _ => ?_
  obtain ⟨name, node⟩ := entry
  have length : (above ++ [name]).length = above.length + 1 := by
    rw [List.length_append, List.length_singleton]
  unfold visit
  dsimp only
  rw [← path_concat]
  by_cases named : isValidFileName name = true
  · rw [named, Bool.not_true, if_neg Bool.false_ne_true]
    cases node with
    | regular file =>
      dsimp only
      rw [finds_regular short, and_iff_right named]
      split
      · rename_i valid
        rw [List.mem_singleton, and_iff_right valid]
      · rename_i refused
        exact iff_of_false List.not_mem_nil fun both => refused both.1
    | directory sub =>
      dsimp only
      rw [finds_directory, and_iff_right named]
      split
      · rename_i deeper
        rw [← length] at deeper ⊢
        exact mem_walk_iff (above ++ [name]) sub deeper
      · rename_i deepest
        exact iff_of_false List.not_mem_nil (not_finds (by omega))
    | link | special =>
      exact iff_of_false List.not_mem_nil (finds_other _ ⟨nofun, nofun⟩)
  · rw [Bool.not_eq_true] at named
    rw [named, Bool.not_false, if_pos rfl]
    refine iff_of_false List.not_mem_nil fun finds => ?_
    rw [name_of_finds finds] at named
    cases named
termination_by MAX_PATH_DEPTH - above.length

/-! ## No file twice -/

theorem name_found (path : Bytes) (file : File) : (found path file).name = path := rfl

/-- The path of a file that is found goes through the entry it is found at. -/
theorem splitOn_of_finds (valid : Names above) {node : Inode}
    (finds : Finds above [(name, node)] info) :
    ∃ rest, info.name.splitOn slash = above ++ name :: rest := by
  obtain ⟨names, file, reached, names_, -, -, rfl⟩ := finds
  have first : ∃ rest, names = name :: rest := by
    cases reached with
    | here only =>
      cases List.mem_singleton.mp only
      exact ⟨_, rfl⟩
    | inside only =>
      cases List.mem_singleton.mp only
      exact ⟨_, rfl⟩
  obtain ⟨rest, rfl⟩ := first
  refine ⟨rest, ?_⟩
  rw [name_found]
  refine splitOn_path (fun n mem => ?_)
    (List.append_ne_nil_of_right_ne_nil _ (List.cons_ne_nil _ _))
  rcases List.mem_append.mp mem with front | back
  · exact valid n front
  · exact names_ n back

theorem mem_visit_iff (short : above.length < MAX_PATH_DEPTH) :
    info ∈ visit (path above) above.length entry ↔ Finds above [entry] info := by
  rw [← mem_walk_iff above [entry] short, walk_eq, List.flatMap_singleton]

theorem nodup_walk (above : List Bytes) (entries : Entries) (short : above.length < MAX_PATH_DEPTH)
    (valid : Names above) (proper : Proper entries) :
    ((walk (path above) above.length entries).map FileInfo.name).Nodup := by
  obtain ⟨distinct, plain, below⟩ := proper
  rw [walk_eq, List.map_flatMap, List.nodup_flatMap]
  constructor
  · rintro ⟨name, node⟩ mem
    have length : (above ++ [name]).length = above.length + 1 := by
      rw [List.length_append, List.length_singleton]
    unfold visit
    dsimp only
    rw [← path_concat]
    split
    · exact List.nodup_nil
    · rename_i named
      rw [Bool.not_eq_true', Bool.not_eq_false] at named
      cases node with
      | regular file =>
        dsimp only
        split
        · exact List.nodup_singleton _
        · exact List.nodup_nil
      | directory sub =>
        dsimp only
        split
        · rename_i deeper
          rw [← length] at deeper ⊢
          refine nodup_walk (above ++ [name]) sub deeper (fun n inside => ?_) (below name sub mem)
          rcases List.mem_append.mp inside with front | last
          · exact valid n front
          · rwa [List.mem_singleton.mp last]
        · exact List.nodup_nil
      | link | special => exact List.nodup_nil
  · refine (List.pairwise_map.mp distinct).imp fun {a b} other => ?_
    intro name inA inB
    obtain ⟨info, visitedA, rfl⟩ := List.mem_map.mp inA
    obtain ⟨info', visitedB, same⟩ := List.mem_map.mp inB
    obtain ⟨rest, componentsA⟩ := splitOn_of_finds valid ((mem_visit_iff short).mp visitedA)
    obtain ⟨rest', componentsB⟩ := splitOn_of_finds valid ((mem_visit_iff short).mp visitedB)
    rw [same, componentsA] at componentsB
    exact other (List.cons.inj (List.append_cancel_left componentsB)).1
termination_by MAX_PATH_DEPTH - above.length

/-! ## The listing -/

theorem plain_of_reached (proper : Proper entries) (reached : Reached entries names file) :
    ∀ name ∈ names, slash ∉ name := by
  induction reached with
  | here mem =>
    obtain ⟨-, plain, -⟩ := proper
    intro name only
    rw [List.mem_singleton.mp only]
    exact plain _ mem
  | inside mem rest ih =>
    obtain ⟨-, plain, below⟩ := proper
    exact List.forall_mem_cons.mpr ⟨plain _ mem, ih (below _ _ mem)⟩

/-- From the root, only the whole path counts. -/
theorem finds_root_iff (proper : Proper entries) : Finds [] entries info ↔
    ∃ names file, Reached entries names file ∧ isValidPath ([slash].intercalate names) = true ∧
      info = found ([slash].intercalate names) file := by
  unfold Finds
  refine exists_congr fun names => exists_congr fun file => and_congr_right fun reached => ?_
  rw [List.nil_append, List.length_nil, Nat.zero_add]
  constructor
  · rintro ⟨names_, -, valid, eq⟩
    rw [path_eq names_ reached.ne_nil] at valid eq
    exact ⟨valid, eq⟩
  · rintro ⟨valid, eq⟩
    obtain ⟨names_, short⟩ := names_of_valid (plain_of_reached proper reached) reached.ne_nil valid
    rw [path_eq names_ reached.ne_nil]
    exact ⟨names_, short, valid, eq⟩

theorem mem_listTree (tree : Tree) : info ∈ listTree tree ↔
    ∃ names file, Reached tree.entries names file ∧
      isValidPath ([slash].intercalate names) = true ∧
        info = found ([slash].intercalate names) file := by
  rw [listTree, List.mem_mergeSort, ← finds_root_iff tree.proper]
  exact mem_walk_iff [] tree.entries (by decide)

theorem nodup_listTree (tree : Tree) : ((listTree tree).map FileInfo.name).Nodup := by
  have each := nodup_walk [] tree.entries (by decide) (fun _ => nofun) tree.proper
  exact ((List.mergeSort_perm _ _).map _).nodup_iff.mpr each

/-- Sorting leaves no two neighbours alike, as no path comes twice. -/
theorem sorted_listTree (tree : Tree) :
    (listTree tree).Pairwise fun a b => compare a.name b.name = .lt := by
  have sorted : (listTree tree).Pairwise fun a b => (compare a.name b.name).isLE = true := by
    refine List.pairwise_mergeSort (fun a b c => ?_) (fun a b => ?_) _
    · exact TransCmp.isLE_trans
    · cases order : compare a.name b.name with
      | lt | eq => rfl
      | gt => rw [OrientedCmp.lt_of_gt order]; rfl
  refine (sorted.and (List.pairwise_map.mp (nodup_listTree tree))).imp fun {a b} both => ?_
  obtain ⟨le, other⟩ := both
  cases order : compare a.name b.name with
  | lt => rfl
  | eq => exact absurd (LawfulEqCmp.eq_of_compare order) other
  | gt =>
    rw [order] at le
    cases le

/-- **`list_tree` lists exactly the syncable files**, each once, in the order of their
paths. -/
theorem listed_exactly (tree : Tree) :
    (listTree tree).Pairwise (fun a b => compare a.name b.name = .lt) ∧
      (∀ info, info ∈ listTree tree ↔ ∃ names file, Reached tree.entries names file ∧
        isValidPath ([slash].intercalate names) = true ∧
          info = found ([slash].intercalate names) file) ∧
        ∀ names file, Reached tree.entries names file →
          isValidPath ([slash].intercalate names) = true →
            ((listTree tree).map FileInfo.name).count ([slash].intercalate names) = 1 := by
  refine ⟨sorted_listTree tree, fun info => mem_listTree tree, fun names file reached valid => ?_⟩
  refine List.count_eq_one_of_mem (nodup_listTree tree)
    (List.mem_map.mpr ⟨_, ?_, name_found _ file⟩)
  exact (mem_listTree tree).mpr ⟨names, file, reached, valid, rfl⟩

/-- A directory with one file, next to a link and a file. -/
def notes : Tree where
  entries := [(bytes "last", .link (bytes "a")),
    (bytes "d", .directory [(bytes "b", .regular (.single 1 0))]),
      (bytes "a", .regular (.single 2 0))]
  proper := by
    have inner : Proper [(bytes "b", .regular (.single 1 0))] := by
      refine .intro (by decide) (by decide) fun name sub mem => ?_
      cases List.mem_singleton.mp mem
    refine .intro (by decide) (by decide) fun name sub mem => ?_
    rcases List.mem_cons.mp mem with same | mem
    · cases same
    rcases List.mem_cons.mp mem with same | mem
    · cases same
      exact inner
    · cases List.mem_singleton.mp mem

example : (listTree notes).map FileInfo.name = [bytes "a", bytes "d/b"] := by
  have inner : walk (bytes "d") 1 [(bytes "b", .regular (.single 1 0))] =
      [found (bytes "d/b") (.single 1 0)] := by
    rw [walk_eq]
    rfl
  have whole : walk [] 0 notes.entries =
      [found (bytes "d/b") (.single 1 0), found (bytes "a") (.single 2 0)] := by
    rw [walk_eq]
    exact congrArg (· ++ [found (bytes "a") (.single 2 0)]) inner
  have sorted : (compare (bytes "d/b") (bytes "a")).isLE = false := by decide
  rw [listTree, whole]
  simp [List.mergeSort, List.MergeSort.Internal.splitInTwo, found, File.info, sorted]

/-! ## The same files in a tree of paths -/

/-- A tree of paths that holds the regular files of a directory tree. -/
def Holds (flat : FileTree Bytes File) (tree : Tree) : Prop :=
  ∀ names file, (∀ name ∈ names, slash ∉ name) → names ≠ [] →
    (Reached tree.entries names file ↔ flat.file? ([slash].intercalate names) = some file)

theorem reaches_none (path : Bytes) : Faults.none.reaches path = true := by
  unfold Faults.reaches Faults.none
  rw [Bool.and_eq_true, List.all_eq_true]
  exact ⟨rfl, fun _ _ => rfl⟩

/-- What is listed of it is what `list_tree` lists. -/
theorem mem_listTree_of_holds {flat : FileTree Bytes File} {tree : Tree} (holds : Holds flat tree) :
    info ∈ (SisOp.listTree .none flat).map (fun entry => found entry.1 entry.2) ↔
      info ∈ listTree tree := by
  rw [mem_listTree, List.mem_map]
  constructor
  · rintro ⟨⟨path, file⟩, mem, rfl⟩
    obtain ⟨present, valid, -⟩ := mem_listTree_iff.mp mem
    have components : [slash].intercalate (path.splitOn slash) = path :=
      List.intercalate_splitOn slash
    refine ⟨path.splitOn slash, file, ?_, by rwa [components], by rw [components]⟩
    refine (holds _ file (fun name inside => ?_) (List.splitOn_ne_nil slash path)).mpr ?_
    · rw [splitOn_slash] at inside
      obtain ⟨p, -, rfl⟩ := List.mem_map.mp inside
      exact slash_not_mem_baseName p
    · rwa [components]
  · rintro ⟨names, file, reached, valid, rfl⟩
    have plain := plain_of_reached tree.proper reached
    refine ⟨⟨_, file⟩, mem_listTree_iff.mpr ⟨?_, valid, reaches_none _⟩, rfl⟩
    exact (holds names file plain reached.ne_nil).mp reached

end SisOp.Walk
