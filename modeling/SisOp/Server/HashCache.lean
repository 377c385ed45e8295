import SisOp.Server.Disk
import SisOp.Lib.Run

/-!
# The cache of hashes between listings and changes

`Storage::list` of any number of connections next to `Storage::commit` and
`Storage::remove`. The write mutex keeps the changes apart from each other, not
from the listings, so a listing looks at a file, hashes it and saves the hash in
three steps, and a commit forgets the saved hash and moves the new file into place
in two. A step is one system call or one use of the cache under its own mutex.

`fresh_step_iff` says which steps leave a wrong hash in the cache, and
`list_alone_right` what a listing reports after a run without such steps.
-/

namespace SisOp.Caching

open Lib Std

/-! ## A listing, call by call -/

/-- What `walk` still has to do: open a directory or look at an entry. -/
inductive Todo where
  | enter (dir : Option Bytes) (depth : Nat)
  | look (path : Bytes) (depth : Nat)
  deriving DecidableEq

/-- The next call of `walk`: more to do, and what was found. -/
def Todo.next (tree : Disk.Tree) (fails : Bool) : Todo → List Todo × List FileInfo
  | .enter dir depth =>
    if fails then ([], []) else ((tree.children dir).map fun path => .look path depth, [])
  | .look path depth =>
    if !isValidFileName (baseName path) || fails then ([], [])
    else
      match tree.node path with
      | some .dir =>
        (if depth + 1 < MAX_PATH_DEPTH then [.enter (some path) (depth + 1)] else [], [])
      | some (.file file) =>
        ([], if isValidPath path then [{ file.info path with hash := 0 }] else [])
      | _ => ([], [])

/-- A call of `Storage::list` between two of its steps, by what comes next. -/
inductive Lister where
  | walk (user : Bytes) (todo : List Todo) (found : List FileInfo)
  | lookUp (user : Bytes) (files hashed : List FileInfo)
  | hash (user : Bytes) (file : FileInfo) (files hashed : List FileInfo)
  | store (user : Bytes) (file : FileInfo) (files hashed : List FileInfo)
  | done (hashed : List FileInfo)
  deriving DecidableEq

/-- The saved hash of a file, if it was saved with this size and time. -/
def saved? {α : Type} [Ord α] [TransOrd α] (cache : ExtTreeMap α FileInfo) (path : α)
    (file : FileInfo) : Option UInt64 :=
  match cache[path]? with
  | some saved =>
    if saved.size = file.size ∧ saved.mtimeNs = file.mtimeNs then some saved.hash else none
  | none => none

/-- The next step of `Storage::list`; `fails` is how its system call ends. -/
def Lister.next (root : Bytes) (disk : Disk.Tree) (cache : HashCache) (fails : Bool) :
    Lister → Option (Lister × HashCache)
  | .walk user [] found =>
    some (.lookUp user (found.mergeSort fun a b => (compare a.name b.name).isLE) [], cache)
  | .walk user (first :: todo) found =>
    let one := first.next (Disk.userTree root disk user) fails
    some (.walk user (one.1 ++ todo) (found ++ one.2), cache)
  | .lookUp _ [] hashed => some (.done hashed, cache)
  | .lookUp user (file :: files) hashed =>
    match saved? cache (filePath root user file.name) file with
    | some known => some (.lookUp user files (hashed ++ [{ file with hash := known }]), cache)
    | none => some (.hash user file files hashed, cache)
  | .hash user file files hashed =>
    match if fails then none else disk.file? (filePath root user file.name) with
    | some now =>
      some (.store user { file with hash := fnv1a now.content } files hashed, cache)
    | none => some (.lookUp user files hashed, cache) -- vanished meanwhile
  | .store user file files hashed =>
    some (.lookUp user files (hashed ++ [file]), cache.insert (filePath root user file.name) file)
  | .done _ => none

/-! ## A change, call by call -/

/-- Who holds the write mutex, by what comes next. -/
inductive Writer where
  | erase (user path : Bytes) (temp : File)
  | rename (user path : Bytes) (temp : File)
  | prune (user path : Bytes)
  | forget (user path : Bytes)

/-- The next step of `Storage::commit`, once the directories are made, or of
`Storage::remove`, once the file is gone. -/
def Writer.next (root : Bytes) (disk : Disk.Tree) (cache : HashCache) (fails : Bool) :
    Writer → Option Writer × Disk.Tree × HashCache
  | .erase user path temp =>
    (some (.rename user path temp), disk, cache.erase (filePath root user path))
  | .rename user path temp =>
    (none, (if fails then none else disk.place (filePath root user path) temp).getD disk, cache)
  | .prune user path =>
    (some (.forget user path),
      disk.rmdirs ((dirs path).reverse.map (joinPath (userDir root user))), cache)
  | .forget user path => (none, disk, cache.erase (filePath root user path))

/-! ## The server -/

structure State where
  disk : Disk.Tree
  cache : HashCache
  lists : Nat → Option Lister
  writer : Option Writer

/-- A server that has just started on a disk. -/
def State.initial (disk : Disk.Tree) : State := ⟨disk, ∅, fun _ => none, none⟩

/-- A listing begins or goes on, a change takes the write mutex or goes on. -/
inductive Act where
  | list (t : Nat) (user : Bytes)
  | call (t : Nat) (fails : Bool)
  | commit (user path : Bytes) (temp : File)
  | remove (user path : Bytes)
  | write (fails : Bool)

/-- `ensure_user`, then `make_parent_dirs`. -/
def makeWay (root : Bytes) (disk : Disk.Tree) (user path : Bytes) : Disk.Tree × Bool :=
  let ensured := Disk.ensureUser root disk user
  if ensured.2 then Disk.makeParentDirs ensured.1 (userDir root user) path else ensured

def step (root : Bytes) (s : State) : Act → Option State
  | .list t user =>
    if isValidUsername user && (s.lists t).isNone then
      some { s with lists := fun u => if u = t then some (.walk user [.enter none 0]
        []) else s.lists u }
    else none
  | .call t fails => do
    let lister ← s.lists t
    let (lister, cache) ← lister.next root s.disk s.cache fails
    pure { s with lists := fun u => if u = t then some lister else s.lists u, cache }
  | .commit user path temp =>
    if s.writer.isNone && isValidUsername user && isValidPath path then
      let made := makeWay root s.disk user path
      some { s with disk := made.1, writer := if made.2 then some (.erase user path
        temp) else none }
    else none
  | .remove user path =>
    if s.writer.isNone && isValidUsername user && isValidPath path then
      match s.disk.unlink (filePath root user path) with
      | some disk => some { s with disk, writer := some (.prune user path) }
      | none => some s
    else none
  | .write fails => do
    let writer ← s.writer
    let (writer, disk, cache) := writer.next root s.disk s.cache fails
    pure { s with disk, cache, writer }

/-! ## What the cache says -/

/-- What was saved of a file is right, if it says anything about it. -/
def Agrees (saved : FileInfo) (file : File) : Prop :=
  saved.size = file.content.length.toUInt64 → saved.mtimeNs = file.mtime →
    saved.hash = fnv1a file.content

instance (saved : FileInfo) (file : File) : Decidable (Agrees saved file) :=
  inferInstanceAs (Decidable (_ → _ → _))

/-- Every hash the cache has for a file on the disk is the file's. -/
def Fresh (s : State) : Prop :=
  ∀ path file saved, s.disk.file? path = some file → s.cache[path]? = some saved →
    Agrees saved file

/-- A listing about to save a hash has the hash of the file now there, unless that
has another size or time. -/
def StoreHarmless (root : Bytes) (disk : Disk.Tree) : Option Lister → Prop
  | some (.store user file _ _) =>
    ∀ now ∈ disk.file? (filePath root user file.name), Agrees file now
  | _ => True

/-- A commit about to move its file into place finds no hash that was saved since
it forgot the last one, unless that is the file's hash or its size or time differ. -/
def RenameHarmless (root : Bytes) (disk : Disk.Tree) (cache : HashCache) (fails : Bool) :
    Option Writer → Prop
  | some (.rename user path temp) =>
    fails = false ∧ (disk.place (filePath root user path) temp).isSome →
      ∀ saved ∈ cache[filePath root user path]?, Agrees saved temp
  | _ => True

/-- No step of a listing or a commit leaves another version's hash behind. -/
def Harmless (root : Bytes) (s : State) : Act → Prop
  | .call t _ => StoreHarmless root s.disk (s.lists t)
  | .write fails => RenameHarmless root s.disk s.cache fails s.writer
  | _ => True

instance (root : Bytes) (disk : Disk.Tree) : ∀ l, Decidable (StoreHarmless root disk l)
  | some (.store _ _ _ _) => inferInstanceAs (Decidable (∀ now ∈ _, Agrees _ now))
  | none | some (.walk _ _ _) | some (.lookUp _ _ _) | some (.hash _ _ _ _) | some (.done _) =>
    isTrue trivial

instance (root : Bytes) (disk : Disk.Tree) (cache : HashCache) (fails : Bool) :
    ∀ w, Decidable (RenameHarmless root disk cache fails w)
  | some (.rename _ _ _) => inferInstanceAs (Decidable (_ ∧ _ → ∀ saved ∈ _, Agrees saved _))
  | none | some (.erase _ _ _) | some (.prune _ _) | some (.forget _ _) => isTrue trivial

instance (root : Bytes) (s : State) : ∀ a, Decidable (Harmless root s a)
  | .call t _ => inferInstanceAs (Decidable (StoreHarmless root s.disk (s.lists t)))
  | .write fails => inferInstanceAs (Decidable (RenameHarmless root s.disk s.cache fails s.writer))
  | .list _ _ | .commit _ _ _ | .remove _ _ => isTrue trivial

/-! ## Steps that leave the cache right -/

section Steps

variable {root user path : Bytes} {s s' : State} {a : Act} {disk : Disk.Tree}

/-- The directories a commit makes are no files. -/
theorem file?_makeWay (disk : Disk.Tree) (user path q : Bytes) :
    (makeWay root disk user path).1.file? q = disk.file? q := by
  have ensured : (Disk.ensureUser root disk user).1.file? q = disk.file? q :=
    FileTree.file?_mkdirs _ q
  unfold makeWay Disk.makeParentDirs
  dsimp only
  split
  · split
    · exact ensured
    · exact (FileTree.file?_mkdirs _ q).trans ensured
  · exact ensured

/-- A cache that says less of a disk with fewer files stays right. -/
theorem Fresh.mono (fresh : Fresh s)
    (files : ∀ q f, s'.disk.file? q = some f → s.disk.file? q = some f)
    (cached : ∀ (q : Bytes) saved, s'.cache[q]? = some saved → s.cache[q]? = some saved) :
    Fresh s' :=
  fun q f saved there known => fresh q f saved (files q f there) (cached q saved known)

/-- A hash saved of a file keeps the cache right exactly when it is right. -/
theorem fresh_insert_iff {file : FileInfo} {lists : Nat → Option Lister} (fresh : Fresh s) :
    Fresh { s with lists, cache := s.cache.insert path file } ↔
      ∀ now ∈ s.disk.file? path, Agrees file now := by
  constructor
  · intro after now there
    refine after path now file there ?_
    rw [Map.getElem?_insert, if_pos rfl]
  · intro right q f saved there known
    dsimp only at there known
    rw [Map.getElem?_insert] at known
    split at known
    · subst q
      cases known
      exact right f there
    · exact fresh q f saved there known

/-- A file moved into place keeps the cache right exactly when what is saved of its
path is right. -/
theorem fresh_place_iff {temp : File} {writer : Option Writer}
    (fresh : Fresh s) (placed : s.disk.place path temp = some disk) :
    Fresh { s with disk, writer } ↔ ∀ saved ∈ s.cache[path]?, Agrees saved temp := by
  constructor
  · intro after saved known
    refine after path temp saved ?_ known
    rw [FileTree.file?_place placed, if_pos rfl]
  · intro right q f saved there known
    dsimp only at there known
    rw [FileTree.file?_place placed] at there
    split at there
    · subst q
      cases there
      exact right saved known
    · exact fresh q f saved there known

/-- A listing changes the cache only where it saves a hash. -/
theorem cache_of_next {l l' : Lister} {cache cache' : HashCache} {fails : Bool}
    (moved : l.next root disk cache fails = some (l', cache')) :
    cache' = match l with
      | .store user file _ _ => cache.insert (filePath root user file.name) file
      | _ => cache := by
  cases l with
  | walk user todo found =>
    cases todo <;> cases moved <;> rfl
  | lookUp user files hashed =>
    cases files with
    | nil =>
      cases moved
      rfl
    | cons file files =>
      rw [Lister.next] at moved
      split at moved <;> cases moved <;> rfl
  | hash user file files hashed =>
    rw [Lister.next] at moved
    split at moved <;> cases moved <;> rfl
  | store user file files hashed =>
    cases moved
    rfl
  | done hashed => cases moved

theorem fresh_call_iff {l l' : Lister} {cache : HashCache} {lists : Nat → Option Lister}
    {fails : Bool} (fresh : Fresh s) (moved : l.next root s.disk s.cache fails = some (l', cache)) :
    Fresh { s with lists, cache } ↔ StoreHarmless root s.disk (some l) := by
  rw [cache_of_next moved]
  cases l with
  | store user file files hashed => exact fresh_insert_iff fresh
  | _ => exact iff_of_true fresh trivial

theorem fresh_write_iff {w : Writer} {fails : Bool} (fresh : Fresh s) :
    Fresh { s with
        writer := (w.next root s.disk s.cache fails).1
        disk := (w.next root s.disk s.cache fails).2.1
        cache := (w.next root s.disk s.cache fails).2.2 } ↔
      RenameHarmless root s.disk s.cache fails (some w) := by
  have forgotten : ∀ (disk : Disk.Tree) (writer : Option Writer) (path : Bytes),
      (∀ q f, disk.file? q = some f → s.disk.file? q = some f) →
        Fresh { s with disk, writer, cache := s.cache.erase path } := by
    intro disk writer path files
    refine fresh.mono files fun q saved known => ?_
    rw [Map.getElem?_erase] at known
    split at known
    · cases known
    · exact known
  cases w with
  | erase user path temp => exact iff_of_true (forgotten _ _ _ fun _ _ there => there) trivial
  | rename user path temp =>
    dsimp only [Writer.next, RenameHarmless]
    cases fails with
    | true => exact iff_of_true fresh fun both => nomatch both.1
    | false =>
      rw [if_neg Bool.false_ne_true]
      cases placed : s.disk.place (filePath root user path) temp with
      | none => exact iff_of_true fresh fun both => nomatch both.2
      | some disk =>
        rw [Option.getD_some, fresh_place_iff fresh placed]
        exact ⟨fun right _ => right, fun right => right ⟨rfl, rfl⟩⟩
  | prune user path =>
    refine iff_of_true (fresh.mono (fun q f there => ?_) fun _ _ known => known) trivial
    dsimp only [Writer.next] at there
    rwa [FileTree.file?_rmdirs] at there
  | forget user path => exact iff_of_true (forgotten _ _ _ fun _ _ there => there) trivial

/-- **What leaves a wrong hash behind.** After a step the cache is right as before
exactly when the step is harmless. -/
theorem fresh_step_iff (fresh : Fresh s) (stepped : step root s a = some s') :
    Fresh s' ↔ Harmless root s a := by
  cases a with
  | list t user =>
    rw [step] at stepped
    split at stepped <;> cases stepped
    exact iff_of_true fresh trivial
  | call t fails =>
    obtain ⟨l, here, stepped⟩ := Option.bind_eq_some_iff.mp stepped
    obtain ⟨⟨l', cache⟩, moved, stepped⟩ := Option.bind_eq_some_iff.mp stepped
    cases stepped
    rw [Harmless, here]
    exact fresh_call_iff fresh moved
  | commit user path temp =>
    rw [step] at stepped
    split at stepped <;> cases stepped
    refine iff_of_true (fresh.mono (fun q f there => ?_) fun _ _ known => known) trivial
    rwa [file?_makeWay] at there
  | remove user path =>
    rw [step] at stepped
    split at stepped
    · split at stepped <;> cases stepped
      · rename_i disk removed
        refine iff_of_true (fresh.mono (fun q f there => ?_) fun _ _ known => known) trivial
        dsimp only at there
        rw [FileTree.file?_unlink removed] at there
        split at there
        · cases there
        · exact there
      · exact iff_of_true fresh trivial
    · cases stepped
  | write fails =>
    obtain ⟨w, here, stepped⟩ := Option.bind_eq_some_iff.mp stepped
    cases stepped
    rw [Harmless, here]
    exact fresh_write_iff fresh

/-- The cache of a server that has just started is right. -/
theorem fresh_initial (disk : Disk.Tree) : Fresh (.initial disk) :=
  fun _ _ _ _ known => by cases known.symm.trans ExtTreeMap.getElem?_empty

/-- After a run of harmless steps the cache is right. -/
theorem fresh_run {as : List Act} (harmless : Meets (step root) (Harmless root) (.initial disk) as)
    (ran : run (step root) (.initial disk) as = some s) : Fresh s :=
  run_invariant (fun _ _ _ fresh ok stepped => (fresh_step_iff fresh stepped).mpr ok)
    (fresh_initial disk) harmless ran

end Steps

/-! ## A listing ends -/

section Ends

variable {root : Bytes} {disk tree : Disk.Tree} {cache cache' : HashCache} {fails : Bool}
  {l l' : Lister}

/-- The calls a walk takes for a directory and the levels of directories below it. -/
def dirWeight (tree : Disk.Tree) : Nat → Option Bytes → Nat
  | 0, dir => 1 + ((tree.children dir).map fun _ => 1).sum
  | levels + 1, dir =>
    1 + ((tree.children dir).map fun path => 1 + dirWeight tree levels (some path)).sum

/-- The calls a walk takes at most for what it has still to do. -/
def Todo.weight (tree : Disk.Tree) : Todo → Nat
  | .enter dir depth => dirWeight tree (MAX_PATH_DEPTH - 1 - depth) dir
  | .look path depth =>
    1 + if depth + 1 < MAX_PATH_DEPTH then dirWeight tree (MAX_PATH_DEPTH - 1 - (depth + 1))
      (some path)
      else 0

/-- The steps a listing takes at most: a file found is looked up, hashed and saved. -/
def Lister.weight (root : Bytes) (disk : Disk.Tree) : Lister → Nat
  | .walk user todo found =>
    2 + 5 * (todo.map (Todo.weight (Disk.userTree root disk user))).sum + 4 * found.length
  | .lookUp _ files _ => 1 + 4 * files.length
  | .hash _ _ files _ => 4 + 4 * files.length
  | .store _ _ files _ => 3 + 4 * files.length
  | .done _ => 0

theorem dirWeight_eq (depth : Nat) (dir : Option Bytes) :
    dirWeight tree (MAX_PATH_DEPTH - 1 - depth) dir =
      1 + (((tree.children dir).map fun path => Todo.look path depth).map
        (Todo.weight tree)).sum := by
  rw [List.map_map]
  by_cases deeper : depth + 1 < MAX_PATH_DEPTH
  · have levels : MAX_PATH_DEPTH - 1 - depth = MAX_PATH_DEPTH - 1 - (depth + 1) + 1 := by omega
    rw [levels, dirWeight]
    refine congrArg (fun weights => 1 + (List.sum weights)) (List.map_congr_left fun path _ => ?_)
    rw [Function.comp_apply, Todo.weight, if_pos deeper]
  · have levels : MAX_PATH_DEPTH - 1 - depth = 0 := by omega
    rw [levels, dirWeight]
    refine congrArg (fun weights => 1 + (List.sum weights)) (List.map_congr_left fun path _ => ?_)
    rw [Function.comp_apply, Todo.weight, if_neg deeper]

theorem Todo.weight_next (item : Todo) :
    ((item.next tree fails).1.map (Todo.weight tree)).sum < item.weight tree ∧
      (item.next tree fails).2.length ≤ 1 := by
  cases item with
  | enter dir depth =>
    rw [Todo.weight, dirWeight_eq, Todo.next]
    split
    · exact ⟨by rw [List.map_nil, List.sum_nil]; omega, Nat.zero_le 1⟩
    · exact ⟨Nat.lt_add_of_pos_left Nat.one_pos, Nat.zero_le 1⟩
  | look path depth =>
    rw [Todo.weight, Todo.next]
    split
    · exact ⟨by rw [List.map_nil, List.sum_nil]; omega, Nat.zero_le 1⟩
    · split
      · refine ⟨?_, Nat.zero_le 1⟩
        split
        · rw [List.map_singleton, List.sum_singleton, Todo.weight]
          omega
        · rw [List.map_nil, List.sum_nil]
          omega
      · refine ⟨by rw [List.map_nil, List.sum_nil]; omega, ?_⟩
        split
        · exact Nat.le_refl 1
        · exact Nat.zero_le 1
      · exact ⟨by rw [List.map_nil, List.sum_nil]; omega, Nat.zero_le 1⟩

/-- A listing that is not done has a next step, and each brings it nearer its end. -/
theorem Lister.weight_next (l : Lister) (cache : HashCache) (fails : Bool) :
    (∃ hashed, l = .done hashed) ∨
      ∃ l' cache', l.next root disk cache fails = some (l', cache') ∧
        l'.weight root disk < l.weight root disk := by
  cases l with
  | walk user todo found =>
    right
    cases todo with
    | nil =>
      refine ⟨_, _, rfl, ?_⟩
      dsimp only [Lister.weight]
      rw [List.length_mergeSort]
      omega
    | cons first todo =>
      refine ⟨_, _, rfl, ?_⟩
      obtain ⟨less, one⟩ := @Todo.weight_next (Disk.userTree root disk user) fails first
      dsimp only [Lister.weight]
      rw [List.map_append, List.sum_append, List.length_append, List.map_cons, List.sum_cons]
      omega
  | lookUp user files hashed =>
    right
    cases files with
    | nil => exact ⟨_, _, rfl, Nat.one_pos⟩
    | cons file files =>
      rw [Lister.next]
      split
      · refine ⟨_, _, rfl, ?_⟩
        dsimp only [Lister.weight]
        rw [List.length_cons]
        omega
      · refine ⟨_, _, rfl, ?_⟩
        dsimp only [Lister.weight]
        rw [List.length_cons]
        omega
  | hash user file files hashed =>
    right
    rw [Lister.next]
    split
    · refine ⟨_, _, rfl, ?_⟩
      dsimp only [Lister.weight]
      omega
    · refine ⟨_, _, rfl, ?_⟩
      dsimp only [Lister.weight]
      omega
  | store user file files hashed =>
    right
    refine ⟨_, _, rfl, ?_⟩
    dsimp only [Lister.weight]
    omega
  | done hashed => exact .inl ⟨hashed, rfl⟩

end Ends

/-! ## A listing that runs alone -/

/-- What the walk notes of a file there. -/
def Seen (tree : Disk.Tree) (info : FileInfo) : Prop :=
  ∃ f, tree.file? info.name = some f ∧ info = { f.info info.name with hash := 0 }

/-- What a listing is to report of a file there. -/
def Current (tree : Disk.Tree) (info : FileInfo) : Prop :=
  ∃ f, tree.file? info.name = some f ∧ info = f.info info.name

/-- The walk gets to the path from there. -/
def Todo.Leads (p : Bytes) : Todo → Prop
  | .enter dir depth =>
    (dirs p).take (FileTree.trail dir).length = FileTree.trail dir ∧
      (FileTree.trail dir).length = depth
  | .look q depth => (q = p ∨ q ∈ dirs p) ∧ (dirs q).length = depth

/-- What a listing has so far is what is there. -/
def Lister.Sound (user : Bytes) (tree : Disk.Tree) : Lister → Prop
  | .walk u _ found => u = user ∧ ∀ info ∈ found, Seen tree info
  | .lookUp u files hashed =>
    u = user ∧ (∀ info ∈ files, Seen tree info) ∧ ∀ info ∈ hashed, Current tree info
  | .hash u file files hashed =>
    u = user ∧ Seen tree file ∧ (∀ info ∈ files, Seen tree info) ∧ ∀ info ∈ hashed,
      Current tree info
  | .store u file files hashed =>
    u = user ∧ Current tree file ∧ (∀ info ∈ files, Seen tree info) ∧
      ∀ info ∈ hashed, Current tree info
  | .done hashed => ∀ info ∈ hashed, Current tree info

/-- A listing has the path or gets to it. -/
def Lister.Covers (p : Bytes) : Lister → Prop
  | .walk _ todo found => (∃ info ∈ found, info.name = p) ∨ ∃ item ∈ todo, item.Leads p
  | .lookUp _ files hashed => ∃ info ∈ files ++ hashed, info.name = p
  | .hash _ file files hashed | .store _ file files hashed =>
    ∃ info ∈ file :: files ++ hashed, info.name = p
  | .done hashed => ∃ info ∈ hashed, info.name = p

section Alone

variable {root user p : Bytes} {disk tree : Disk.Tree} {cache cache' : HashCache} {fails : Bool}
  {l l' : Lister} {f : File} {s : State}

theorem Todo.seen_next (item : Todo) : ∀ info ∈ (item.next tree fails).2, Seen tree info := by
  intro info mem
  cases item with
  | enter dir depth =>
    rw [Todo.next] at mem
    split at mem <;> cases mem
  | look path depth =>
    rw [Todo.next] at mem
    split at mem
    · cases mem
    · split at mem
      · cases mem
      · rename_i file node
        dsimp only at mem
        split at mem
        · rw [List.mem_singleton.mp mem]
          exact ⟨file, FileTree.file?_eq_some_iff.mpr node, rfl⟩
        · cases mem
      · cases mem

/-- A call that does not fail brings the walk nearer each file it is to find. -/
theorem Todo.leads_next {item : Todo} (valid : isValidPath p = true) (there : tree.file? p = some f)
    (leads : item.Leads p) :
    (∃ info ∈ (item.next tree false).2, info.name = p) ∨
      ∃ more ∈ (item.next tree false).1, more.Leads p := by
  obtain ⟨names, short⟩ := components_of_isValidPath valid
  have present : tree.node p ≠ none := by
    rw [FileTree.file?_eq_some_iff.mp there]
    exact Option.some_ne_none _
  cases item with
  | enter dir depth =>
    obtain ⟨below, deep⟩ := leads
    right
    rw [Todo.next, if_neg Bool.false_ne_true]
    rcases FileTree.entry_or_below below with chain | ⟨c, above, chain⟩
    · refine ⟨.look p depth, List.mem_map_of_mem
        (FileTree.mem_children_iff.mpr ⟨present, chain⟩), .inl rfl, ?_⟩
      rw [← deep, ← chain]
      rfl
    · have isDir : tree.node c = some .dir := FileTree.node_of_mem_ancestors present above
      refine ⟨.look c depth, List.mem_map_of_mem (FileTree.mem_children_iff.mpr
        ⟨by rw [isDir]; exact Option.some_ne_none _, chain⟩), .inr above, ?_⟩
      rw [← deep, ← chain]
      rfl
  | look q depth =>
    obtain ⟨way, deep⟩ := leads
    have name : (!isValidFileName (baseName q) || false) = false := by
      rw [Bool.or_false, Bool.not_eq_false']
      refine names q ?_
      rcases way with rfl | above
      · exact List.mem_append_right _ (List.mem_singleton_self q)
      · exact List.mem_append_left _ above
    rw [Todo.next, name, if_neg Bool.false_ne_true]
    rcases way with rfl | above
    · left
      rw [FileTree.file?_eq_some_iff.mp there]
      dsimp only
      rw [if_pos valid]
      exact ⟨_, List.mem_singleton_self _, rfl⟩
    · right
      have isDir : tree.node q = some .dir := FileTree.node_of_mem_ancestors present above
      have shorter : (dirs q).length < (dirs p).length := Hierarchy.length_lt_of_mem above
      rw [isDir]
      dsimp only
      rw [if_pos (by omega)]
      refine ⟨_, List.mem_singleton_self _, FileTree.take_trail above, ?_⟩
      rw [FileTree.trail, List.length_append, List.length_singleton, ← deep]
      rfl

theorem file?_userTree (valid : isValidUsername user = true) (p : Bytes) :
    (Disk.userTree root disk user).file? p = disk.file? (filePath root user p) := by
  rw [Disk.userTree, FileTree.file?_sub, Disk.under_path valid]

/-- A right cache has the hash of a file there or none. -/
theorem current_of_saved {file : FileInfo} {known : UInt64} (valid : isValidUsername user = true)
    (fresh : Fresh s) (seen : Seen (Disk.userTree root s.disk user) file)
    (saved : saved? s.cache (filePath root user file.name) file = some known) :
    Current (Disk.userTree root s.disk user) { file with hash := known } := by
  obtain ⟨f, there, eq⟩ := seen
  unfold saved? at saved
  split at saved
  · rename_i entry cached
    split at saved
    · rename_i same
      cases saved
      rw [eq] at same
      have right := fresh _ f entry ((file?_userTree valid file.name).symm.trans there) cached
        same.1 same.2
      refine ⟨f, there, ?_⟩
      conv => lhs; rw [eq]
      rw [right]
      rfl
    · cases saved
  · cases saved

/-- A step of a listing that runs alone. -/
theorem Lister.sound_next (valid : isValidUsername user = true) (fresh : Fresh s)
    (sound : l.Sound user (Disk.userTree root s.disk user))
    (moved : l.next root s.disk s.cache fails = some (l', cache')) :
    l'.Sound user (Disk.userTree root s.disk user) ∧ StoreHarmless root s.disk (some l) := by
  cases l with
  | walk u todo found =>
    obtain ⟨rfl, seen⟩ := sound
    cases todo with
    | nil =>
      cases moved
      refine ⟨⟨rfl, fun info mem => seen info (List.mem_mergeSort.mp mem), ?_⟩, trivial⟩
      exact fun info mem => absurd mem List.not_mem_nil
    | cons first todo =>
      cases moved
      refine ⟨⟨rfl, fun info mem => ?_⟩, trivial⟩
      rcases List.mem_append.mp mem with old | new
      · exact seen info old
      · exact first.seen_next info new
  | lookUp u files hashed =>
    obtain ⟨rfl, seen, current⟩ := sound
    cases files with
    | nil =>
      cases moved
      exact ⟨current, trivial⟩
    | cons file files =>
      obtain ⟨first, others⟩ := List.forall_mem_cons.mp seen
      rw [Lister.next] at moved
      split at moved
      · rename_i known saved
        cases moved
        refine ⟨⟨rfl, others, fun info mem => ?_⟩, trivial⟩
        rcases List.mem_append.mp mem with old | new
        · exact current info old
        · rw [List.mem_singleton.mp new]
          exact current_of_saved valid fresh first saved
      · cases moved
        exact ⟨⟨rfl, first, others, current⟩, trivial⟩
  | hash u file files hashed =>
    obtain ⟨rfl, first, others, current⟩ := sound
    rw [Lister.next] at moved
    split at moved
    · rename_i now there
      cases moved
      refine ⟨⟨rfl, ?_, others, current⟩, trivial⟩
      obtain ⟨f, present, eq⟩ := first
      refine ⟨f, present, ?_⟩
      split at there
      · cases there
      · rw [← file?_userTree valid, present] at there
        cases there
        conv => lhs; rw [eq]
        rfl
    · cases moved
      exact ⟨⟨rfl, others, current⟩, trivial⟩
  | store u file files hashed =>
    obtain ⟨rfl, first, others, current⟩ := sound
    cases moved
    refine ⟨⟨rfl, others, fun info mem => ?_⟩, fun now there _ _ => ?_⟩
    · rcases List.mem_append.mp mem with old | new
      · exact current info old
      · rw [List.mem_singleton.mp new]
        exact first
    · obtain ⟨f, present, eq⟩ := first
      rw [Option.mem_def, ← file?_userTree valid, present] at there
      cases there
      rw [eq]
      rfl
  | done hashed => cases moved

/-- A call that does not fail loses none of the files the listing is to report. -/
theorem Lister.covers_next (userValid : isValidUsername user = true)
    (sound : l.Sound user (Disk.userTree root s.disk user)) (pathValid : isValidPath p = true)
    (there : (Disk.userTree root s.disk user).file? p = some f)
    (moved : l.next root s.disk s.cache false = some (l', cache')) (covers : l.Covers p) :
    l'.Covers p := by
  cases l with
  | walk u todo found =>
    obtain ⟨rfl, -⟩ := sound
    cases todo with
    | nil =>
      cases moved
      rcases covers with ⟨info, mem, name⟩ | ⟨item, mem, -⟩
      · refine ⟨info, ?_, name⟩
        rw [List.append_nil]
        exact List.mem_mergeSort.mpr mem
      · cases mem
    | cons first todo =>
      cases moved
      rcases covers with ⟨info, mem, name⟩ | ⟨item, mem, leads⟩
      · exact .inl ⟨info, List.mem_append_left _ mem, name⟩
      · rcases List.mem_cons.mp mem with rfl | later
        · rcases Todo.leads_next pathValid there leads with ⟨info, mem, name⟩ | ⟨more, mem, leads⟩
          · exact .inl ⟨info, List.mem_append_right _ mem, name⟩
          · exact .inr ⟨more, List.mem_append_left _ mem, leads⟩
        · exact .inr ⟨item, List.mem_append_right _ later, leads⟩
  | lookUp u files hashed =>
    obtain ⟨info, mem, name⟩ := covers
    cases files with
    | nil =>
      cases moved
      exact ⟨info, mem, name⟩
    | cons file files =>
      rw [Lister.next] at moved
      split at moved
      · cases moved
        rcases List.mem_cons.mp mem with rfl | later
        · exact ⟨_, List.mem_append_right _ (List.mem_append_right _ (List.mem_singleton_self _)),
            name⟩
        · refine ⟨info, ?_, name⟩
          rw [← List.append_assoc]
          exact List.mem_append_left _ later
      · cases moved
        exact ⟨info, mem, name⟩
  | hash u file files hashed =>
    obtain ⟨rfl, ⟨g, present, -⟩, -⟩ := sound
    obtain ⟨info, mem, name⟩ := covers
    rw [file?_userTree userValid] at present
    rw [Lister.next, if_neg Bool.false_ne_true, present] at moved
    cases moved
    rcases List.mem_cons.mp mem with rfl | later
    · exact ⟨_, List.mem_cons_self, name⟩
    · exact ⟨info, List.mem_cons_of_mem _ later, name⟩
  | store u file files hashed =>
    obtain ⟨info, mem, name⟩ := covers
    cases moved
    refine ⟨info, ?_, name⟩
    rw [← List.append_assoc]
    rcases List.mem_cons.mp mem with rfl | later
    · exact List.mem_append_right _ (List.mem_singleton_self _)
    · exact List.mem_append_left _ later
  | done hashed => cases moved

/-- From any of its steps on, a listing that runs alone ends and reports what is there. -/
theorem alone_ends {t : Nat} {calls : List Bool} (valid : isValidUsername user = true)
    (fresh : Fresh s) (here : s.lists t = some l)
    (sound : l.Sound user (Disk.userTree root s.disk user))
    (enough : l.weight root s.disk ≤ calls.length) :
    ∃ n s' infos, run (step root) s ((calls.take n).map (.call t)) = some s' ∧
      s'.lists t = some (.done infos) ∧
      (∀ info ∈ infos, Current (Disk.userTree root s.disk user) info) ∧
      (true ∉ calls → ∀ p f, (Disk.userTree root s.disk user).file? p = some f →
        isValidPath p = true → l.Covers p → ∃ info ∈ infos, info.name = p) := by
  induction calls generalizing s l with
  | nil =>
    rcases @Lister.weight_next root s.disk l s.cache false with
      ⟨hashed, rfl⟩ | ⟨l', cache', -, less⟩
    · exact ⟨0, s, hashed, rfl, here, sound, fun _ _ _ _ _ covers => covers⟩
    · exact absurd enough (Nat.not_le_of_lt (Nat.zero_lt_of_lt less))
  | cons fails calls ih =>
    rcases @Lister.weight_next root s.disk l s.cache fails with
      ⟨hashed, rfl⟩ | ⟨l', cache', moved, less⟩
    · exact ⟨0, s, hashed, rfl, here, sound, fun _ _ _ _ _ covers => covers⟩
    · have stepped : step root s (.call t fails) = some { s with
          lists := fun u => if u = t then some l' else s.lists u
          cache := cache' } := by
        rw [step, here]
        simp only [Option.bind_eq_bind, Option.bind_some, moved]
        rfl
      obtain ⟨sound', harmless⟩ := l.sound_next valid fresh sound moved
      have fresh' := (fresh_step_iff fresh stepped).mpr (by rw [Harmless, here]; exact harmless)
      obtain ⟨n, s', infos, ran, ended, current, complete⟩ := ih fresh' (if_pos rfl) sound'
        (by rw [List.length_cons] at enough; dsimp only; omega)
      refine ⟨n + 1, s', infos, ?_, ended, current, fun never p f there pathValid covers => ?_⟩
      · rw [List.take_succ_cons, List.map_cons]
        exact run_cons_eq_some.mpr ⟨_, stepped, ran⟩
      · rw [List.mem_cons, not_or] at never
        cases fails with
        | true => exact absurd rfl never.1
        | false =>
          exact complete never.2 p f there pathValid
            (l.covers_next valid sound pathValid there moved covers)

end Alone

/-- **Hashes after a run.** After any run of harmless steps a listing that runs
alone ends; what it reports is what is on the disk, with its hash, and if none of
its calls fails it reports every file. -/
theorem list_alone_right {root user : Bytes} {disk : Disk.Tree} {s : State}
    {as : List Act} {t : Nat} (harmless : Meets (step root) (Harmless root) (.initial disk) as)
    (ran : run (step root) (.initial disk) as = some s) (valid : isValidUsername user = true)
    (unused : s.lists t = none) :
    ∃ bound, ∀ calls : List Bool, bound ≤ calls.length →
      ∃ n s' infos, run (step root) s (.list t user :: (calls.take n).map (.call t)) = some s' ∧
        s'.lists t = some (.done infos) ∧
        (∀ info ∈ infos, ∃ f, s.disk.file? (filePath root user info.name) = some f ∧
          info = f.info info.name) ∧
        (true ∉ calls → ∀ p f, isValidPath p = true →
          s.disk.file? (filePath root user p) = some f → f.info p ∈ infos) := by
  have fresh := fresh_run harmless ran
  let begun : State :=
    { s with lists := fun u => if u = t then some (.walk user [.enter none 0] []) else s.lists u }
  have stepped : step root s (.list t user) = some begun := by
    rw [step, valid, unused]
    rfl
  have fresh' := (fresh_step_iff fresh stepped).mpr trivial
  refine ⟨Lister.weight root s.disk (.walk user [.enter none 0] []), fun calls enough => ?_⟩
  obtain ⟨n, s', infos, ran', ended, current, complete⟩ := alone_ends (t := t) valid fresh'
    (if_pos rfl) ⟨rfl, fun info mem => absurd mem List.not_mem_nil⟩ enough
  refine ⟨n, s', infos, run_cons_eq_some.mpr ⟨_, stepped, ran'⟩, ended, fun info mem => ?_,
    fun never p f pathValid there => ?_⟩
  · obtain ⟨f, there, eq⟩ := current info mem
    exact ⟨f, (file?_userTree valid info.name).symm.trans there, eq⟩
  · have there' := (file?_userTree valid p).trans there
    obtain ⟨info, mem, rfl⟩ := complete never p f there' pathValid
      (.inr ⟨_, List.mem_singleton_self _, rfl, rfl⟩)
    obtain ⟨g, present, eq⟩ := current info mem
    obtain rfl : f = g := Option.some.inj (there'.symm.trans present)
    rw [← eq]
    exact mem

/-! ## A stale hash -/

section Examples

def one : File := .single 1 0

def two : File := .single 2 0

def ana : Bytes := bytes "ana"

/-- A whole commit of a file `a`. -/
def commits (file : File) : List Act := [.commit ana (bytes "a") file, .write false, .write false]

/-- Steps of a listing of one file: `opendir`, `lstat`, the sort, the cache, the file,
the cache again, the end. -/
def calls (t n : Nat) : List Act := (List.replicate n false).map (.call t)

/-- A listing, a commit that keeps size and time, another listing. -/
theorem list_alone_right_apart :
    ∃ (s s' : State) (outcomes : List Bool) (infos : List FileInfo),
      run (step (bytes "d")) (.initial ∅) (commits one ++ .list 0 ana :: calls 0 7 ++ commits two) =
        some s ∧
      run (step (bytes "d")) s (.list 1 ana :: outcomes.map (.call 1)) = some s' ∧
      s'.lists 1 = some (.done infos) ∧ two.info (bytes "a") ∈ infos := by
  obtain ⟨s, ran⟩ : ∃ s, run (step (bytes "d")) (.initial ∅)
      (commits one ++ .list 0 ana :: calls 0 7 ++ commits two) = some s :=
    Option.isSome_iff_exists.mp (by decide +kernel)
  have after : (run (step (bytes "d")) (.initial ∅)
      (commits one ++ .list 0 ana :: calls 0 7 ++ commits two)).map (fun s =>
        (s.lists 1, s.disk.file? (filePath (bytes "d") ana (bytes "a")))) = some
          (none, some two) := by
    decide +kernel
  rw [ran, Option.map_some, Option.some.injEq, Prod.mk.injEq] at after
  obtain ⟨bound, ends⟩ := @list_alone_right (bytes "d") ana ∅ s _ 1 (by decide +kernel) ran
    (by decide) after.1
  obtain ⟨n, s', infos, ran', ended, -, complete⟩ := ends (List.replicate bound false)
    (Nat.le_of_eq List.length_replicate.symm)
  refine ⟨s, s', _, infos, ran, ran', ended, complete (fun mem => ?_) _ two (by decide) after.2⟩
  cases List.eq_of_mem_replicate mem

/-- A listing hashes the file before the commit and saves the hash after it. -/
theorem stale_hash :
    ¬∀ (root user : Bytes) (disk : Disk.Tree) (as : List Act) (s s' : State) (t : Nat)
        (outcomes : List Bool) (infos : List FileInfo),
      run (step root) (.initial disk) as = some s → s.writer = none →
      run (step root) s (.list t user :: outcomes.map (.call t)) = some s' →
      s'.lists t = some (.done infos) → true ∉ outcomes →
      ∀ p f, isValidPath p = true → s.disk.file? (filePath root user p) = some f →
        ∃ info ∈ infos, info.name = p ∧ info.hash = fnv1a f.content := by
  intro claim
  obtain ⟨s, ran⟩ : ∃ s, run (step (bytes "d")) (.initial ∅)
      (commits one ++ .list 0 ana :: calls 0 5 ++ commits two ++ calls 0 2) = some s :=
    Option.isSome_iff_exists.mp (by decide +kernel)
  have after : (run (step (bytes "d")) (.initial ∅)
      (commits one ++ .list 0 ana :: calls 0 5 ++ commits two ++ calls 0 2)).map (fun s =>
        (s.writer.isNone, s.disk.file? (filePath (bytes "d") ana (bytes "a")),
          (run (step (bytes "d")) s (.list 1 ana :: calls 1 5)).map fun s => s.lists 1)) =
      some (true, some two, some (some (.done [one.info (bytes "a")]))) := by
    decide +kernel
  rw [ran, Option.map_some, Option.some.injEq, Prod.mk.injEq, Prod.mk.injEq, Option.map_eq_some_iff,
    Option.isNone_iff_eq_none] at after
  obtain ⟨quiet, there, s', ran', ended⟩ := after
  obtain ⟨info, mem, -, hash⟩ :=
    claim _ _ _ _ s s' 1 (List.replicate 5 false) _ ran quiet ran' ended
    (by decide) (bytes "a") two (by decide) there
  rw [List.mem_singleton.mp mem] at hash
  exact absurd hash (by decide +kernel)

end Examples

end SisOp.Caching
