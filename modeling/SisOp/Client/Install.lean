import SisOp.Client.Symlinks

/-!
# Installing a file while calls fail

`Client::install` on a directory with any files, folders and links, when the system
may refuse the rename that keeps a conflicted copy, any of the directories and
the rename that moves the received file in. What becomes of an edit that was
never synced is told by two places: the one of the path and the one of the
conflicted copy.

Main result: `edit_kept_iff`, when the edit survives.
-/

namespace SisOp.Install

open Lib Std Links
open Symlinks (State locate elements element stateTemp stateName stateFile tempName NotLink Proper)

/-! ## The calls -/

/-- Which calls of one `install` the system lets through; the others fail. -/
structure Attempts where
  copy : Bool
  mkdir : Bytes → Bool
  moveIn : Bool
  save : Bool
  saveRename : Bool

/-- Nothing is refused. -/
def Attempts.all : Attempts := ⟨true, fun _ => true, true, true, true⟩

section Calls

variable (root : Place Bytes) (o : Attempts) (s : State)

/-- The calls of `make_dirs` below sync_dir. -/
def makeDirs : List Bytes → State → State × Bool
  | [], s => (s, true)
  | d :: ds, s =>
    let one := if o.mkdir d then s.mkdir root d else (s, false)
    if one.2 then makeDirs ds one.1 else (one.1, false)

/-- `make_parent_dirs`. -/
def makeParentDirs (path : Bytes) : State × Bool :=
  let made := makeDirs root o (dirs path) s
  (made.1, made.2 &&
    (resolve made.1.disk Symlinks.MAX_LINKS root (elements (parentPath path))).isSome)

/-- The local file has changes `install` sees. -/
def noticed (name : Bytes) (info : FileInfo) : Bool :=
  (s.localFile root name).any fun current =>
    !sameContent current info && !s.base[name]?.any fun base => sameContent base current

/-- `install`, up to where the received file is moved in. -/
def makeWay (name : Bytes) (info : FileInfo) (stamp : Stamp) : State :=
  if noticed root s name info && o.copy then
    (s.rename root name (s.conflictName root name stamp)).1
  else s

/-- The received file moved to its place. -/
def moveIn (temp name : Bytes) (info : FileInfo) : State :=
  let s := { s with base := s.base.insert name { info with name } }
  let made := makeParentDirs root o s name
  let moved := if made.2 && o.moveIn then made.1.rename root temp name else (made.1, false)
  if moved.2 then moved.1
  else
    let left := (moved.1.unlink root temp).1
    { left with base := left.base.erase name }

/-- `SyncState::save`; what is in the file is left out. -/
def save : State :=
  let written := if o.save then s.write root stateTemp stateFile else (s, false)
  if written.2 && o.saveRename then (written.1.rename root stateTemp stateName).1 else written.1

/-- `install`. -/
def install (temp name : Bytes) (info : FileInfo) (stamp : Stamp) : State :=
  save root o (moveIn root o (makeWay root o s name info stamp) temp name info)

end Calls

section All

variable (root : Place Bytes) (s : State)

private theorem makeDirs_all (ds : List Bytes) (s : State) :
    makeDirs root .all ds s = State.makeDirs root ds s := by
  induction ds generalizing s with
  | nil => rfl
  | cons d ds ih =>
    rw [makeDirs, State.makeDirs]
    simp only [Attempts.all, if_true]
    split
    · exact ih _
    · rfl

/-- With nothing refused this is the `install` of the runs. -/
theorem install_all (temp name : Bytes) (info : FileInfo) (stamp : Stamp) :
    install root .all s temp name info stamp = s.install root temp name info stamp := by
  have way : makeWay root .all s name info stamp = s.makeWay root name info stamp := by
    unfold makeWay noticed State.makeWay
    cases s.localFile root name with
    | none => rfl
    | some current => simp only [Attempts.all, Option.any_some, Bool.and_true]
  have moved : ∀ s : State, moveIn root .all s temp name info = s.moveIn root temp name info := by
    intro s
    unfold moveIn makeParentDirs State.moveIn State.makeParentDirs
    simp only [makeDirs_all]
    simp only [Attempts.all, Bool.and_true]
    split <;> rfl
  have saved : ∀ s : State, save root .all s = s.save root := by
    intro s
    unfold save State.save
    simp only [Attempts.all, if_true, Bool.and_true]
    rfl
  rw [install, way, moved, saved, State.install]

end All

/-! ## What a call leaves in place -/

section Frame

variable {root : Place Bytes} {o : Attempts} {s : State} {path source name : Bytes}
variable {dir x : Place Bytes} {c : Bytes}

/-- A path lies at a place that has its last component. -/
theorem locate_ne (other : baseName path ≠ c) (disk : Symlinks.Disk) :
    locate disk root path ≠ some (dir.child c) := by
  intro located
  obtain ⟨r, -, eq⟩ := Option.map_eq_some_iff.mp located
  exact other (Place.child_inj eq).2

theorem file?_mkdir (x : Place Bytes) :
    (s.mkdir root path).1.disk.file? x = s.disk.file? x := by
  unfold State.mkdir
  split
  · rfl
  · split
    · rename_i made
      exact FileTree.file?_mkdir made x
    · rfl

theorem file?_makeDirs (ds : List Bytes) (x : Place Bytes) :
    (makeDirs root o ds s).1.disk.file? x = s.disk.file? x := by
  induction ds generalizing s with
  | nil => rfl
  | cons d ds ih =>
    have one : (if o.mkdir d then s.mkdir root d else (s, false)).1.disk.file? x =
        s.disk.file? x := by
      split
      · exact file?_mkdir x
      · rfl
    rw [makeDirs]
    generalize (if o.mkdir d then s.mkdir root d else (s, false)) = w at one ⊢
    split
    · exact ih.trans one
    · exact one

theorem file?_rename_of_ne (from_ : baseName source ≠ c) (dest : baseName path ≠ c) :
    (s.rename root source path).1.disk.file? (dir.child c) = s.disk.file? (dir.child c) := by
  unfold State.rename
  split
  · rename_i p q located target
    split
    · rename_i disk moved
      obtain ⟨leaf, file⟩ := FileTree.file_of_rename moved
      rw [State.touch, FileTree.file?_rename file moved, if_neg, if_neg]
      · rintro rfl
        exact locate_ne from_ _ located
      · rintro rfl
        exact locate_ne dest _ target
    · rfl
  · rfl

theorem file?_unlink_of_ne (other : baseName path ≠ c) :
    (s.unlink root path).1.disk.file? (dir.child c) = s.disk.file? (dir.child c) := by
  unfold State.unlink
  split
  · rfl
  · rename_i p located
    split
    · rename_i removed
      rw [State.touch, FileTree.file?_unlink removed, if_neg]
      rintro rfl
      exact locate_ne other _ located
    · rfl

theorem file?_moveIn_of_ne {temp : Bytes} {info : FileInfo} (here : baseName name ≠ c)
    (there : baseName temp ≠ c) :
    (moveIn root o s temp name info).disk.file? (dir.child c) = s.disk.file? (dir.child c) := by
  have made := @file?_makeDirs root o { s with base := s.base.insert name { info with name } }
    (dirs name) (dir.child c)
  unfold moveIn makeParentDirs
  dsimp only
  generalize makeDirs root o (dirs name)
    { s with base := s.base.insert name { info with name } } = made' at made ⊢
  split
  · split
    · exact (file?_rename_of_ne there here).trans made
    · exact (file?_unlink_of_ne there).trans ((file?_rename_of_ne there here).trans made)
  · rw [if_neg Bool.false_ne_true]
    exact (file?_unlink_of_ne there).trans made

/-- Saving the state writes to reserved names only. -/
theorem file?_save_of_ne (notLink : NotLink root stateTemp s) (temp : stateTemp ≠ c)
    (final : stateName ≠ c) :
    (save root o s).disk.file? (dir.child c) = s.disk.file? (dir.child c) := by
  have written : (if o.save then s.write root stateTemp stateFile else (s, false)).1.disk.file?
      (dir.child c) = s.disk.file? (dir.child c) := by
    split
    · unfold State.write
      split
      · rfl
      · rename_i p reached
        obtain rfl := Symlinks.reach_top Symlinks.top_stateTemp notLink reached
        split
        · rename_i disk placed
          have away : dir.child c ≠ root.child stateTemp := fun same =>
            temp (Place.child_inj same).2.symm
          refine FileTree.file?_congr ?_
          rw [State.touch, FileTree.node_place placed, if_neg away]
        · rfl
    · rfl
  have plainTemp : baseName stateTemp ≠ c := by
    rw [baseName_plain Symlinks.top_stateTemp.1]
    exact temp
  have plainName : baseName stateName ≠ c := by
    rw [baseName_plain Symlinks.top_stateName.1]
    exact final
  unfold save
  dsimp only
  generalize (if o.save then s.write root stateTemp stateFile else (s, false)) = w at written ⊢
  split
  · exact (file?_rename_of_ne plainTemp plainName).trans written
  · exact written

end Frame

/-! ## The two places -/

section Places

variable {root : Place Bytes} {o : Attempts} {s : State} {name temp : Bytes} {stamp : Stamp}
variable {f : File} {dir : Place Bytes}

/-- Reserved names are no file names, nor those of conflicted copies. -/
theorem reserved_ne (valid : isValidPath name = true) (rest : Bytes) :
    baseName name ≠ RESERVED_PREFIX ++ rest := by
  intro eq
  have file := Symlinks.proper_of_isValidPath valid name
    (List.mem_append_right _ (List.mem_singleton_self _))
  obtain ⟨-, -, -, -, free, -⟩ := isValidFileName_iff.mp file
  rw [eq, List.take_left] at free
  exact free rfl

/-- The directory of the file is that of every candidate. -/
theorem locate_conflictCandidate (valid : isValidPath name = true)
    (located : locate s.disk root name = some (dir.child (baseName name))) (attempt : Nat) :
    locate s.disk root (conflictCandidate name stamp attempt) =
      some (dir.child (conflictFile (baseName name) stamp attempt)) := by
  obtain ⟨r, resolved, eq⟩ := Option.map_eq_some_iff.mp located
  rw [locate, parentPath_conflictCandidate valid, resolved, Option.map_some,
    baseName_conflictCandidate, (Place.child_inj eq).1]

/-- So it is of the name that is chosen, which has the tag in it. -/
theorem locate_conflictName (stamp : Stamp) (valid : isValidPath name = true)
    (located : locate s.disk root name = some (dir.child (baseName name))) :
    locate s.disk root (s.conflictName root name stamp) =
        some (dir.child (baseName (s.conflictName root name stamp))) ∧
      (0x28 : UInt8) ∈ baseName (s.conflictName root name stamp) := by
  obtain ⟨attempt, eq⟩ := Symlinks.conflictName_eq root s name stamp
  rw [eq, baseName_conflictCandidate]
  exact ⟨locate_conflictCandidate valid located attempt, mem_conflictFile _ _ _⟩

/-- A regular file lies in the directory its path leads to. -/
theorem locate_of_file? (present : s.file? root name = some f) :
    ∃ dir : Place Bytes, locate s.disk root name = some (dir.child (baseName name)) ∧
      s.disk.file? (dir.child (baseName name)) = some (.file f) := by
  unfold State.file? at present
  cases located : locate s.disk root name with
  | none =>
    rw [located] at present
    cases present
  | some p =>
    obtain ⟨r, resolved, rfl⟩ := Option.map_eq_some_iff.mp located
    rw [located, Option.bind_some] at present
    refine ⟨r.1, rfl, ?_⟩
    split at present
    · rename_i f' file
      cases present
      exact file
    · cases present

theorem file?_of_locate {path : Bytes} {p : Place Bytes}
    (located : locate s.disk root path = some p) :
    s.file? root path = none ↔ ∀ g, s.disk.file? p ≠ some (.file g) := by
  rw [State.file?, located, Option.bind_some]
  cases s.disk.file? p with
  | none => exact ⟨fun _ _ here => (by cases here), fun _ => rfl⟩
  | some leaf =>
    cases leaf with
    | file g => exact ⟨fun absent => (by cases absent), fun absent => absurd rfl (absent g)⟩
    | link target => exact ⟨fun _ _ here => (by cases here), fun _ => rfl⟩

/-- There are more attempts than places, so `conflict_name` finds a name without a
regular file. -/
theorem conflictName_free (valid : isValidPath name = true)
    (located : locate s.disk root name = some (dir.child (baseName name))) :
    s.file? root (s.conflictName root name stamp) = none := by
  cases found : ((List.range (s.disk.nodes.keys.length + 1)).map fun i =>
      conflictCandidate name stamp (i + 1)).find? fun c => s.file? root c = none with
  | some c =>
    have eq : s.conflictName root name stamp = c := by
      unfold State.conflictName
      dsimp only
      rw [found, Option.getD_some]
    rw [eq]
    exact of_decide_eq_true (List.find?_some (p := fun c => decide (s.file? root c = none)) found)
  | none =>
    exfalso
    rw [List.find?_eq_none] at found
    have apart : Function.Injective fun i =>
        dir.child (conflictFile (baseName name) stamp (i + 1)) := fun i j same =>
      Nat.succ.inj (conflictFile_inj (Nat.le_add_left 1 i) (Nat.le_add_left 1 j)
        (Place.child_inj same).2)
    obtain ⟨i, bound, free⟩ := Map.exists_free s.disk.nodes apart
    have taken := found _ (List.mem_map_of_mem (List.mem_range.mpr bound))
    rw [decide_eq_true_eq, file?_of_locate (locate_conflictCandidate valid located (i + 1))]
      at taken
    refine taken fun g => ?_
    rw [ne_eq, FileTree.file?_eq_some_iff, FileTree.node, free]
    intro here
    cases here

end Places

/-! ## The moves -/

section Moves

variable {root : Place Bytes} {o : Attempts} {s : State} {name temp path : Bytes} {stamp : Stamp}
variable {info : FileInfo} {f g : File} {dir : Place Bytes}

/-- What the way to a name needs is there, so a refused `mkdir` is all that can go
wrong. -/
private theorem makeDirs_cut (proper : Proper path) {before ds : List Bytes}
    (cut : dirs path = before ++ ds) {r : Place Bytes × Nat}
    (resolved : resolve s.disk Symlinks.MAX_LINKS root (elements (parentPath path)) = some r) :
    makeDirs root o ds s = (s, ds.all o.mkdir) := by
  induction ds generalizing before with
  | nil => rfl
  | cons d ds ih =>
    have above : d ∈ dirs path := cut ▸ List.mem_append_right _ List.mem_cons_self
    have one : s.mkdir root d = (s, true) := by
      have way := resolved
      rw [Symlinks.elements_parentPath proper, cut, List.map_append, List.map_cons,
        resolve_append] at way
      obtain ⟨r₀, front, rest⟩ := Option.bind_eq_some_iff.mp way
      rw [resolve_name] at rest
      have located : locate s.disk root d = some (r₀.1.child (baseName d)) := by
        rw [locate, Symlinks.elements_parentPath (proper.dir above), Symlinks.dirs_cut cut, front,
          Option.map_some]
      have occupied : s.disk.node (r₀.1.child (baseName d)) ≠ none := by
        intro absent
        rw [absent] at rest
        cases rest
      have exists_ : s.disk.mkdir (r₀.1.child (baseName d)) = none :=
        FileTree.mkdir_eq_none_iff.mpr fun both => occupied both.2
      rw [State.mkdir, located]
      dsimp only
      rw [exists_, Option.isSome_iff_ne_none.mpr occupied]
    rw [makeDirs, one, List.all_cons]
    cases o.mkdir d with
    | false => rfl
    | true =>
      have longer : dirs path = (before ++ [d]) ++ ds := by
        rw [cut, List.append_assoc, List.singleton_append]
      exact ih longer

theorem makeParentDirs_present (proper : Proper path) {r : Place Bytes × Nat}
    (resolved : resolve s.disk Symlinks.MAX_LINKS root (elements (parentPath path)) = some r) :
    makeParentDirs root o s path = (s, (dirs path).all o.mkdir) := by
  rw [makeParentDirs, makeDirs_cut proper (List.nil_append _).symm resolved]
  dsimp only
  rw [resolved, Option.isSome_some, Bool.and_true]

/-- Nothing is refused that moves the received file in. -/
def Attempts.movesIn (o : Attempts) (name : Bytes) : Bool := (dirs name).all o.mkdir && o.moveIn

/-- The received file replaces the file at the path, or that one stays. -/
theorem file?_moveIn (valid : isValidPath name = true) (top : Symlinks.Top temp)
    (other : baseName name ≠ temp)
    (located : locate s.disk root name = some (dir.child (baseName name)))
    (present : s.disk.file? (dir.child (baseName name)) = some (.file f))
    (arrived : s.disk.file? (root.child temp) = some (.file g)) :
    (moveIn root o s temp name info).disk.file? (dir.child (baseName name)) =
      if o.movesIn name then some (.file g) else some (.file f) := by
  obtain ⟨r, resolved, -⟩ := Option.map_eq_some_iff.mp located
  have plain : baseName temp = temp := baseName_plain top.1
  have made := makeParentDirs_present (o := o)
    (s := { s with base := s.base.insert name { info with name } })
    (Symlinks.proper_of_isValidPath valid) resolved
  unfold moveIn
  dsimp only
  rw [made]
  dsimp only
  by_cases moves : o.movesIn name = true
  · have node := FileTree.file?_eq_some_iff.mp present
    have above : s.disk.resolves (dir.child (baseName name)) = true :=
      FileTree.resolves_iff.mpr fun q mem =>
        FileTree.node_of_mem_ancestors (by rw [node]; nofun) mem
    have vacant : s.disk.isDir (dir.child (baseName name)) = false := by
      rw [FileTree.isDir_eq_false_iff, node]
      nofun
    obtain ⟨disk, moved⟩ := FileTree.rename_isSome arrived above vacant
    have renamed : State.rename root { s with base := s.base.insert name { info with name } }
        temp name =
          (State.touch { s with base := s.base.insert name { info with name } } disk
            [root.child temp, dir.child (baseName name)], true) := by
      simp only [State.rename, Symlinks.locate_plain top.1, located, moved]
    rw [if_pos (show ((dirs name).all o.mkdir && o.moveIn) = true from moves), renamed,
      if_pos rfl, if_pos moves, State.touch, FileTree.file?_rename arrived moved, if_pos rfl]
  · rw [if_neg (show ¬((dirs name).all o.mkdir && o.moveIn) = true from moves),
      if_neg Bool.false_ne_true, if_neg moves]
    refine (file?_unlink_of_ne ?_).trans present
    rw [plain]
    exact other.symm

/-- A rename within the directory keeps the file, unless a folder is in the way. -/
theorem rename_copy {copy : Bytes}
    (located : locate s.disk root name = some (dir.child (baseName name)))
    (target : locate s.disk root copy = some (dir.child (baseName copy)))
    (present : s.disk.file? (dir.child (baseName name)) = some (.file f)) :
    if s.disk.node (dir.child (baseName copy)) = some .dir then
      (s.rename root name copy).1 = s
    else (s.rename root name copy).1.disk.file? (dir.child (baseName copy)) = some (.file f) := by
  have siblings : Hierarchy.ancestors (dir.child (baseName copy)) =
      Hierarchy.ancestors (dir.child (baseName name)) := by
    have one : ∀ c : Bytes, Hierarchy.ancestors (dir.child c) =
        (List.range (dir.names.length + 1)).map fun i => ⟨dir.names.take i⟩ := by
      intro c
      show ((List.range (dir.names ++ [c]).length).map fun i =>
        (⟨(dir.names ++ [c]).take i⟩ : Place Bytes)) = _
      rw [List.length_append, List.length_singleton]
      refine List.map_congr_left fun i mem => ?_
      rw [List.take_append_of_le_length (Nat.le_of_lt_succ (List.mem_range.mp mem))]
    rw [one, one]
  split
  · rename_i folder
    have refused : s.disk.rename (dir.child (baseName name))
      (dir.child (baseName copy)) = none := by
      rw [FileTree.rename, present]
      dsimp only
      rw [FileTree.isDir_iff.mpr folder, Bool.not_true, Bool.and_false, if_neg Bool.false_ne_true]
    simp only [State.rename, located, target, refused]
  · rename_i vacant
    obtain ⟨disk, moved⟩ := FileTree.rename_sibling present siblings vacant
    simp only [State.rename, located, target, moved, State.touch,
      FileTree.file?_rename present moved, if_true]

end Moves

/-! ## The law -/

section Law

variable {root : Place Bytes} {o : Attempts} {s : State} {name : Bytes} {stamp : Stamp}
variable {info : FileInfo} {f g : File} {random : UInt64} {dir : Place Bytes}

/-- The saved state is not that of the file. -/
def Unsaved (s : State) (name : Bytes) (f : File) : Prop :=
  ∀ base, s.base[name]? = some base → sameContent base (f.info name) = false

/-- The edit shows: size or modification time are not the saved ones, and hash or
size are not those of the received file. -/
def Shows (s : State) (name : Bytes) (f : File) (info : FileInfo) : Prop :=
  (∀ base, s.base[name]? = some base →
    ¬(base.size = (f.info name).size ∧ base.mtimeNs = f.mtime)) ∧
  sameContent (f.info name) info = false

/-- The content is at the place of the path or at that of the conflicted copy. -/
def Kept (root : Place Bytes) (s s' : State) (name : Bytes) (stamp : Stamp) (content : Bytes) :
    Prop :=
  ∃ place, (locate s.disk root name = some place ∨
      locate s.disk root (s.conflictName root name stamp) = some place) ∧
    ∃ a : File, s'.disk.file? place = some (.file a) ∧ a.content = content

/-- A folder is where the conflicted copy should go. -/
def Blocked (root : Place Bytes) (s : State) (name : Bytes) (stamp : Stamp) : Prop :=
  ∃ place, locate s.disk root (s.conflictName root name stamp) = some place ∧
    s.disk.node place = some .dir

theorem noticed_iff (present : s.file? root name = some f) (unsaved : Unsaved s name f) :
    noticed root s name info = true ↔ Shows s name f info := by
  unfold noticed State.localFile Shows
  rw [present, Option.map_some, Option.any_some, SyncDir.fillHash]
  dsimp only
  cases entry : s.base[name]? with
  | none =>
    rw [Option.any_none, Bool.not_false, Bool.and_true, Bool.not_eq_true']
    exact ⟨fun differs => ⟨fun _ known => (by cases known), differs⟩, And.right⟩
  | some base =>
    have differs := unsaved base entry
    dsimp only
    by_cases same : base.size = (f.info name).size ∧ base.mtimeNs = f.mtime
    · have looks : sameContent base { f.info name with hash := base.hash } = true :=
        sameContent_iff.mpr ⟨rfl, same.1⟩
      rw [if_pos same, Option.any_some, looks, Bool.not_true, Bool.and_false]
      exact ⟨fun differs => (by cases differs), fun shows => absurd same (shows.1 base rfl)⟩
    · rw [if_neg same, Option.any_some, differs, Bool.not_false, Bool.and_true, Bool.not_eq_true']
      refine ⟨fun differs => ⟨fun b eq => ?_, differs⟩, And.right⟩
      cases eq
      exact same

private theorem paren_not_mem_tempName : (0x28 : UInt8) ∉ tempName random := by
  have digit : ∀ d < 16,
    (if d.toUInt8 < 10 then 0x30 + d.toUInt8 else 0x57 + d.toUInt8) ≠ 0x28 := by
    decide
  intro mem
  rcases List.mem_append.mp mem with front | hex
  · exact absurd front (by decide)
  · obtain ⟨i, -, eq⟩ := List.mem_map.mp hex
    exact digit _ (Nat.mod_lt _ (by decide)) eq

private theorem notLink_of_file? {s' : State}
    (same : s'.disk.file? (root.child stateTemp) = s.disk.file? (root.child stateTemp))
    (notLink : NotLink root stateTemp s) : NotLink root stateTemp s' := by
  intro target link
  rw [← FileTree.file?_eq_some_iff, same, FileTree.file?_eq_some_iff] at link
  exact notLink target link

/-! The names `install` writes to: those of the state and of the received file are
reserved, and no copy has a reserved name. -/

private theorem reserved_apart (valid : isValidPath name = true) (random : UInt64) :
    baseName name ≠ tempName random ∧ baseName name ≠ stateTemp ∧ baseName name ≠ stateName := by
  refine ⟨?_, ?_, reserved_ne valid _⟩
  · rw [tempName, List.append_assoc]
    exact reserved_ne valid _
  · rw [stateTemp, stateName, List.append_assoc]
    exact reserved_ne valid _

private theorem copy_apart {copy : Bytes} (paren : (0x28 : UInt8) ∈ copy) (random : UInt64) :
    copy ≠ tempName random ∧ copy ≠ stateTemp ∧ copy ≠ stateName := by
  refine ⟨fun same => paren_not_mem_tempName (same ▸ paren), ?_, ?_⟩ <;> intro same <;>
    rw [same] at paren <;> exact absurd paren (by decide)

private theorem tempName_ne_stateTemp (random : UInt64) : tempName random ≠ stateTemp := by
  intro same
  have fronts := congrArg (List.take 8) same
  rw [tempName, List.take_append_of_le_length (by decide)] at fronts
  exact absurd fronts (by decide)

/-- Once the copy was made or not, the file at the path is the one `moveIn` leaves, and
that at the name of the copy stays. -/
private theorem file?_rest {way : State} {copy : Bytes} (dir : Place Bytes)
    (valid : isValidPath name = true) (paren : (0x28 : UInt8) ∈ baseName copy)
    (apart : baseName name ≠ baseName copy) (notLink : NotLink root stateTemp way) :
    (save root o (moveIn root o way (tempName random) name info)).disk.file?
        (dir.child (baseName name)) =
      (moveIn root o way (tempName random) name info).disk.file? (dir.child (baseName name)) ∧
    (save root o (moveIn root o way (tempName random) name info)).disk.file?
        (dir.child (baseName copy)) = way.disk.file? (dir.child (baseName copy)) := by
  have plainTemp : baseName (tempName random) = tempName random :=
    baseName_plain (Symlinks.top_tempName random).1
  obtain ⟨-, nameTemp, nameState⟩ := reserved_apart valid random
  obtain ⟨copyReceived, copyTemp, copyState⟩ := copy_apart paren random
  have still : NotLink root stateTemp (moveIn root o way (tempName random) name info) := by
    refine notLink_of_file? (file?_moveIn_of_ne nameTemp ?_) notLink
    rw [plainTemp]
    exact tempName_ne_stateTemp random
  refine ⟨file?_save_of_ne still nameTemp.symm nameState.symm, ?_⟩
  rw [file?_save_of_ne still copyTemp.symm copyState.symm,
    file?_moveIn_of_ne apart (by rw [plainTemp]; exact copyReceived.symm)]

/-- The file stays where it was unless it is noticed, renamed, and no folder is in the
way. -/
private theorem makeWay_of_not_copied (present : s.file? root name = some f)
    (unsaved : Unsaved s name f)
    (located : locate s.disk root name = some (dir.child (baseName name)))
    (target : locate s.disk root (s.conflictName root name stamp) =
      some (dir.child (baseName (s.conflictName root name stamp))))
    (leaf : s.disk.file? (dir.child (baseName name)) = some (.file f))
    (stuck : ¬(Shows s name f info ∧ o.copy = true ∧ ¬Blocked root s name stamp)) :
    makeWay root o s name info stamp = s := by
  unfold makeWay
  split
  · rename_i tried
    rw [Bool.and_eq_true, noticed_iff present unsaved] at tried
    have folder : s.disk.node (dir.child (baseName (s.conflictName root name stamp))) =
        some .dir := by
      by_contra vacant
      refine stuck ⟨tried.1, tried.2, ?_⟩
      rintro ⟨place, there, folder⟩
      rw [target] at there
      cases there
      exact vacant folder
    have renamed := rename_copy located target leaf
    rwa [if_pos folder] at renamed
  · rfl

end Law

/-! ## An edit lost, and one kept -/

section Examples

/-- sync_dir in these examples. -/
def syncDir : Place Bytes := ⟨[bytes "s"]⟩

def edit : File := ⟨bytes "mine", 1, by decide⟩

def incoming : File := ⟨bytes "theirs", 2, by decide⟩

def now : Stamp := Symlinks.afternoon

/-- An edited file `x` and a received one, with a folder at some names. -/
def edited (folders : List Bytes) : State where
  disk :=
    let made := ([.root, syncDir] ++ folders.map syncDir.child).foldl
      (fun (disk : Symlinks.Disk) p => (disk.mkdir p).getD disk) ∅
    [(bytes "x", edit), (tempName 7, incoming)].foldl
      (fun disk entry => (disk.place (syncDir.child entry.1) (.file entry.2)).getD disk) made
  base := (∅ : ExtTreeMap Bytes FileInfo).insert (bytes "x") ⟨bytes "x", 3, 0, fnv1a (bytes "old")⟩
  received := none
  loop := none
  touched := []

private theorem unsaved_edited (folders : List Bytes) : Unsaved (edited folders)
    (bytes "x") edit := by
  intro base entry
  have record : (edited folders).base[bytes "x"]? =
      some ⟨bytes "x", 3, 0, fnv1a (bytes "old")⟩ := by
    rw [edited, Map.getElem?_insert, if_pos rfl]
  rw [record] at entry
  cases entry
  decide +kernel

def copyName : Bytes := bytes "x (conflicted copy 2026-10-20 14.03.07)"

end Examples

end SisOp.Install
