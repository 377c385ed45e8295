import SisOp.Client.Unreadable
import SisOp.Lib.Links
import SisOp.Lib.Run

/-!
# Symbolic links in sync_dir

`handle_push`, `install` and `reconcile` of `client/client.cpp` as the calls they
make on a disk with symbolic links. Names from the server are checked as text; the
calls that use them follow the links that lie on the way. The state keeps the
places that were created, overwritten, renamed or removed.

Main result: `touched_inside`, these places are inside sync_dir in every run in
which no link on the way to a handled name leads out of it.
-/

namespace SisOp.Symlinks

open Lib Std Links

/-! ## Calls -/

/-- Links followed in one path. -/
def MAX_LINKS : Nat := 40

instance : TransOrd (Place Bytes) := inferInstance

instance : LawfulEqOrd (Place Bytes) := inferInstance

abbrev Disk := FileTree (Place Bytes) (Leaf Bytes File)

def element (component : Bytes) : Element Bytes :=
  if component.isEmpty || component == bytes "." then .here
  else if component == bytes ".." then .up
  else .name component

/-- The elements of a directory below sync_dir; sync_dir itself is empty. -/
def elements (dir : Bytes) : List (Element Bytes) :=
  if dir.isEmpty then [] else (dir.splitOn slash).map element

/-- Where a path below `root` lies; only the directories above it are followed. -/
def locate (disk : Disk) (root : Place Bytes) (path : Bytes) : Option (Place Bytes) :=
  (resolve disk MAX_LINKS root (elements (parentPath path))).map fun r => r.1.child (baseName path)

/-- A change received while the sync mutex was not held yet. -/
structure Received where
  info : FileInfo
  temp : Bytes

/-- What `reconcile` still has to do. -/
structure Loop where
  here : ExtTreeMap Bytes FileInfo
  there : ExtTreeMap Bytes FileInfo
  names : List Bytes

/-- The disk and the saved state; `touched` only records. -/
structure State where
  disk : Disk
  base : ExtTreeMap Bytes FileInfo
  received : Option Received
  loop : Option Loop
  touched : List (Place Bytes)

/-- `"%016llx"`. -/
def hex (n : UInt64) : Bytes :=
  (List.range 16).map fun i =>
    let d := (n.toNat / 16 ^ (15 - i) % 16).toUInt8
    if d < 10 then 0x30 + d else 0x57 + d

/-- The name `make_temp_path` makes of a random number. -/
def tempName (random : UInt64) : Bytes := RESERVED_PREFIX ++ bytes "_tmp_" ++ hex random

def stateName : Bytes := RESERVED_PREFIX ++ bytes "_state"

/-- Stands for what `save` writes. -/
def stateFile : File := ⟨[], 0, by decide⟩

/-- What becomes of the body of a file, as far as it was written: it is complete, or
the transfer is broken off. -/
inductive Transfer where
  | complete (file : File)
  | failed (file : File) (result : CallResult)

namespace State

variable (root : Place Bytes) (s : State)

/-- The disk after a call that touched some places. -/
def touch (disk : Disk) (places : List (Place Bytes)) : State :=
  { s with disk, touched := s.touched ++ places }

/-- `mkdir`; a directory or anything else that exists is no error. -/
def mkdir (path : Bytes) : State × Bool :=
  match locate s.disk root path with
  | none => (s, false)
  | some p =>
    match s.disk.mkdir p with
    | some disk => (s.touch disk [p], true)
    | none => (s, (s.disk.node p).isSome)

/-- `replace_file`. -/
def rename (source path : Bytes) : State × Bool :=
  match locate s.disk root source, locate s.disk root path with
  | some p, some q =>
    match s.disk.rename p q with
    | some disk => (s.touch disk [p, q], true)
    | none => (s, false)
  | _, _ => (s, false)

/-- `remove_file`. -/
def unlink (path : Bytes) : State × Bool :=
  match locate s.disk root path with
  | none => (s, false)
  | some p =>
    match s.disk.unlink p with
    | some disk => (s.touch disk [p], true)
    | none => (s, false)

def rmdir (path : Bytes) : State × Bool :=
  match locate s.disk root path with
  | none => (s, false)
  | some p =>
    match s.disk.rmdir p with
    | some disk => (s.touch disk [p], true)
    | none => (s, false)

/-- A file opened with `O_CREAT` and `O_TRUNC`, then written. -/
def write (path : Bytes) (file : File) : State × Bool :=
  match reach s.disk (MAX_LINKS + 1) MAX_LINKS root (elements path) with
  | none => (s, false)
  | some p =>
    match s.disk.place p (.file file) with
    | some disk => (s.touch disk [p], true)
    | none => (s, false)

/-- The regular file `stat_file` finds. -/
def file? (path : Bytes) : Option File :=
  match (locate s.disk root path).bind s.disk.file? with
  | some (.file f) => some f
  | _ => none

/-! ## Functions of the client -/

/-- The calls of `make_dirs` below sync_dir, outermost first. -/
def makeDirs : List Bytes → State → State × Bool
  | [], s => (s, true)
  | d :: ds, s =>
    let one := s.mkdir root d
    if one.2 then makeDirs ds one.1 else (one.1, false)

/-- `make_parent_dirs`. -/
def makeParentDirs (path : Bytes) : State × Bool :=
  let made := makeDirs root (dirs path) s
  (made.1, made.2 && (resolve made.1.disk MAX_LINKS root (elements (parentPath path))).isSome)

/-- `remove_empty_parents`, innermost first. -/
def removeEmptyParents : List Bytes → State → State
  | [], s => s
  | d :: ds, s =>
    let one := s.rmdir root d
    if one.2 then removeEmptyParents ds one.1 else one.1

/-- `SyncState::save`; what is in the file is left out. -/
def save : State :=
  let written := s.write root (stateName ++ bytes ".tmp") stateFile
  if written.2 then (written.1.rename root (stateName ++ bytes ".tmp") stateName).1 else written.1

/-- `recv_file_body` into a temporary file, and whether the file is there. -/
def receive (temp : Bytes) : Transfer → State × Bool
  | .complete file =>
    let written := s.write root temp file
    if written.2 then written else ((written.1.unlink root temp).1, false)
  | .failed file _ => (((s.write root temp file).1.unlink root temp).1, false)

/-- `local_file`. -/
def localFile (name : Bytes) : Option FileInfo :=
  (s.file? root name).map (SyncDir.fillHash ⟨∅, s.base⟩ name)

/-- `conflict_name`. There are more attempts than files, so one of them is free. -/
def conflictName (name : Bytes) (stamp : Stamp) : Bytes :=
  let attempts := (List.range (s.disk.nodes.keys.length + 1)).map fun i =>
    conflictCandidate name stamp (i + 1)
  (attempts.find? fun c => s.file? root c = none).getD (conflictCandidate name stamp 1)

/-- `install`, up to where the received file is moved in. -/
def makeWay (name : Bytes) (info : FileInfo) (stamp : Stamp) : State :=
  match s.localFile root name with
  | some current =>
    if !sameContent current info && !s.base[name]?.any fun base => sameContent base current then
      (s.rename root name (s.conflictName root name stamp)).1
    else s
  | none => s

/-- The received file moved to its place; what is left of it is removed when it
cannot be. -/
def moveIn (temp name : Bytes) (info : FileInfo) : State :=
  let s := { s with base := s.base.insert name { info with name } }
  let made := s.makeParentDirs root name
  let moved := if made.2 then made.1.rename root temp name else made
  if moved.2 then moved.1
  else
    let left := (moved.1.unlink root temp).1
    { left with base := left.base.erase name }

/-- `install`. -/
def install (temp name : Bytes) (info : FileInfo) (stamp : Stamp) : State :=
  ((s.makeWay root name info stamp).moveIn root temp name info).save root

/-- The regular files below sync_dir that no link leads to, hashed. -/
def localFiles : ExtTreeMap Bytes FileInfo :=
  Map.ofPairs (s.disk.files.filterMap fun entry =>
    match entry.2 with
    | .file f =>
      let name := [slash].intercalate (entry.1.names.drop root.names.length)
      if root.names.isPrefixOf entry.1.names && isValidPath name then
        some (name, SyncDir.fillHash ⟨∅, s.base⟩ name f)
      else none
    | .link _ => none)

end State

/-! ## Steps -/

/-- What the server answers to a Download. -/
inductive Download where
  | refused (result : CallResult)
  | body (info : FileInfo) (transfer : Transfer)

/-- What happens at one path of `reconcile`. -/
structure Turn where
  sent : CallResult
  download : Download
  random : UInt64
  stamp : Stamp

section ReconcileName

variable (root : Place Bytes) (turn : Turn) (s : State) (name : Bytes)

/-- The result of `download`, then `install`. -/
def pull : State × CallResult :=
  match turn.download with
  | .refused result => (s, result)
  | .body info transfer =>
    let got := s.receive root (tempName turn.random) transfer
    if got.2 then (got.1.install root (tempName turn.random) name info turn.stamp, .ok)
    else (got.1, match transfer with
      | .complete _ => .rejected
      | .failed _ result => result)

/-- The body of the loop of `reconcile`. -/
def reconcileName (here there : Option FileInfo) : State × CallResult :=
  match here, there with
  | none, none => ({ s with base := s.base.erase name }, .ok)
  | some h, some t =>
    if sameContent h t then ({ s with base := s.base.insert name h }, .ok)
    else if shouldPush s.base[name]? here there then upload h
    else pull root turn s name
  | some h, none =>
    if shouldPush s.base[name]? here there then upload h
    else
      let removed := State.removeEmptyParents root (dirs name).reverse (s.unlink root name).1
      ({ removed with base := removed.base.erase name }, .ok)
  | none, some _ =>
    if shouldPush s.base[name]? here there then
      (if turn.sent = .failed then s else { s with base := s.base.erase name }, turn.sent)
    else pull root turn s name
where
  upload (h : FileInfo) : State × CallResult :=
    (if turn.sent = .ok then { s with base := s.base.insert name h } else s, turn.sent)

end ReconcileName

inductive Label where
  | user (disk : Disk)
  | receive (info : FileInfo) (random : UInt64) (transfer : Transfer)
  | install (stamp : Stamp)
  | pushDelete (name : Bytes)
  | list (remote : List FileInfo)
  | next (turn : Turn)

/-- The user changes anything but sync_dir itself; the thread of the sync
connection receives a file and installs it, or handles a PushDelete; `reconcile`
gets the server's list, and goes on with the next path. -/
def step (root : Place Bytes) (s : State) : Label → Option State
  | .user disk => if disk.node root = some .dir then some { s with disk } else none
  | .receive info random transfer =>
    match s.received with
    | some _ => none
    | none =>
      let got := s.receive root (tempName random) transfer
      if got.2 then
        if isValidPath info.name then some { got.1 with received := some ⟨info, tempName random⟩ }
        else some (got.1.unlink root (tempName random)).1
      else some got.1
  | .install stamp =>
    match s.received, s.loop with
    | some r, none =>
      some { s.install root r.temp r.info.name r.info stamp with received := none }
    | _, _ => none
  | .pushDelete name =>
    match s.received, s.loop with
    | none, none =>
      if isValidPath name then
        let s := { s with base := s.base.erase name }.save root
        let removed := s.unlink root name
        some (if removed.2 then State.removeEmptyParents root (dirs name).reverse removed.1
          else removed.1)
      else some s
    | _, _ => none
  | .list remote =>
    match s.loop with
    | some _ => none
    | none =>
      let here := s.localFiles root
      let there := Unreadable.remoteMap remote
      some { s with loop := some ⟨here, there, Unreadable.names here there s.base⟩ }
  | .next turn =>
    match s.loop with
    | none => none
    | some ⟨_, _, []⟩ => some { s.save root with loop := none }
    | some ⟨here, there, name :: names⟩ =>
      let one := reconcileName root turn s name here[name]? there[name]?
      if one.2 = .failed then some { one.1.save root with loop := none }
      else some { one.1 with loop := some ⟨here, there, names⟩ }

/-! ## The way to a name -/

section Way

variable {root : Place Bytes} {path d : Bytes} {s s' : State}

/-- The components of a path are names of files. -/
def Proper (path : Bytes) : Prop := ∀ p ∈ dirs path ++ [path], isValidFileName (baseName p) = true

/-- `is_valid_path` accepts names of files only. -/
theorem proper_of_isValidPath (valid : isValidPath path = true) : Proper path :=
  (components_of_isValidPath valid).1

/-- Such a name is neither empty nor one of the dots. -/
theorem element_of_isValidFileName {name : Bytes} (valid : isValidFileName name = true) :
    element name = .name name := by
  obtain ⟨filled, -, dot, dots, -⟩ := isValidFileName_iff.mp valid
  unfold element
  rw [List.isEmpty_eq_false_iff.mpr filled, beq_false_of_ne dot, beq_false_of_ne dots]
  rfl

/-- The directories above a proper path, by their names. -/
theorem elements_parentPath (proper : Proper path) :
    elements (parentPath path) = (dirs path).map fun d => .name (baseName d) := by
  rcases path_cases path with plain | ⟨dir, name, rfl, plain⟩
  · rw [parentPath_plain plain, dirs_eq_nil plain]
    rfl
  · rw [Proper, dirs_append plain] at proper
    have nonempty : dir.isEmpty = false := by
      rw [List.isEmpty_eq_false_iff]
      rintro rfl
      cases proper [] (List.mem_append_left _
        (List.mem_append_right _ (List.mem_singleton_self [])))
    rw [parentPath_append plain, elements, nonempty, if_neg Bool.false_ne_true, splitOn_slash,
      dirs_append plain, List.map_map]
    refine List.map_congr_left fun p mem => ?_
    exact element_of_isValidFileName (proper p (List.mem_append_left _ mem))

/-- The directories above a path, cut before one of them. -/
theorem dirs_cut {before after : List Bytes} (cut : dirs path = before ++ d :: after) :
    dirs d = before := by
  have bound : before.length < (Hierarchy.ancestors path).length := by
    rw [ancestors_eq_dirs, cut, List.length_append, List.length_cons]
    omega
  have taken := Hierarchy.ancestors_getElem path before.length bound
  simp only [ancestors_eq_dirs, cut, List.getElem_append_right (Nat.le_refl _), Nat.sub_self,
    List.getElem_cons_zero, List.take_left] at taken
  exact taken

/-- The directories above a path are paths of the same kind. -/
theorem Proper.dir (proper : Proper path) (above : d ∈ dirs path) : Proper d := by
  obtain ⟨before, after, cut⟩ := List.append_of_mem above
  intro p mem
  rw [dirs_cut cut] at mem
  refine proper p (List.mem_append_left _ ?_)
  rw [cut]
  rcases List.mem_append.mp mem with earlier | last
  · exact List.mem_append_left _ earlier
  · rw [List.mem_singleton.mp last]
    exact List.mem_append_right _ List.mem_cons_self

/-- No link on the way to `path` leads out of sync_dir. -/
def StaysInside (root : Place Bytes) (path : Bytes) (s : State) : Prop :=
  Contained s.disk MAX_LINKS root (elements (parentPath path))

def NotLink (root : Place Bytes) (name : Bytes) (s : State) : Prop :=
  ∀ target, s.disk.node (root.child name) ≠ some (.file (.link target))

/-- The way to a directory above is part of the way. -/
theorem StaysInside.dir (stays : StaysInside root path s) (proper : Proper path)
    (above : d ∈ dirs path) : StaysInside root d s := by
  obtain ⟨before, after, cut⟩ := List.append_of_mem above
  refine stays.front ?_
  rw [elements_parentPath proper, elements_parentPath (proper.dir above), dirs_cut cut, cut,
    List.map_append]
  exact List.prefix_append _ _

/-- What is found along a way that stays inside lies inside. -/
theorem inside_of_locate (stays : StaysInside root path s) {p : Place Bytes}
    (located : locate s.disk root path = some p) : root.Inside p := by
  obtain ⟨r, resolved, rfl⟩ := Option.map_eq_some_iff.mp located
  exact (stays _ List.prefix_rfl r resolved).inside_child _

/-- A name without a slash lies in sync_dir itself. -/
theorem locate_plain {disk : Disk} {name : Bytes} (plain : slash ∉ name) :
    locate disk root name = some (root.child name) := by
  rw [locate, parentPath_plain plain, baseName_plain plain, show elements [] = [] from rfl,
    resolve_nil, Option.map_some]

theorem staysInside_plain {name : Bytes} (plain : slash ∉ name) : StaysInside root name s := by
  intro front shorter r resolved
  rw [parentPath_plain plain] at shorter
  rw [List.prefix_nil.mp shorter, resolve_nil] at resolved
  cases resolved
  exact Place.within_refl root

end Way

/-! ## What one call touches -/

def stateTemp : Bytes := stateName ++ bytes ".tmp"

section Calls

variable {root : Place Bytes} {path d : Bytes} {s s' s'' : State}

/-- No directory and no link is made, and only places inside sync_dir are touched. -/
structure Kept (root : Place Bytes) (s s' : State) : Prop where
  leads : Leads s'.disk s.disk
  touched : ∀ p ∈ s'.touched, p ∈ s.touched ∨ root.Inside p
  frame : s'.received = s.received ∧ s'.loop = s.loop

/-- Only places inside sync_dir are touched, and the temporary file of the saved
state does not become a link. -/
structure Confined (root : Place Bytes) (s s' : State) : Prop where
  touched : ∀ p ∈ s'.touched, p ∈ s.touched ∨ root.Inside p
  notLink : NotLink root stateTemp s → NotLink root stateTemp s'
  frame : s'.received = s.received ∧ s'.loop = s.loop

theorem Kept.refl (root : Place Bytes) (s : State) : Kept root s s :=
    ⟨.refl _, fun _ => .inl, rfl, rfl⟩

/-- What two calls keep after each other is kept. -/
theorem Kept.trans (first : Kept root s s') (second : Kept root s' s'') : Kept root s s'' := by
  refine ⟨second.leads.trans first.leads, fun p mem => ?_, second.frame.1.trans first.frame.1,
    second.frame.2.trans first.frame.2⟩
  rcases second.touched p mem with before | inside
  · exact first.touched p before
  · exact .inr inside

theorem Kept.notLink (kept : Kept root s s') {name : Bytes} (notLink : NotLink root name s) :
    NotLink root name s' :=
  fun target link => notLink target (kept.leads.link _ target link)

/-- A way that stayed inside sync_dir still does. -/
theorem Kept.staysInside (kept : Kept root s s') (stays : StaysInside root path s) :
    StaysInside root path s' := stays.of_leads kept.leads

theorem Kept.confined (kept : Kept root s s') : Confined root s s' :=
  ⟨kept.touched, kept.notLink, kept.frame⟩

theorem Confined.refl (root : Place Bytes) (s : State) : Confined root s s :=
  (Kept.refl root s).confined

/-- Calls after each other touch what each touches. -/
theorem Confined.trans (first : Confined root s s') (second : Confined root s' s'') :
    Confined root s s'' := by
  refine ⟨fun p mem => ?_, fun notLink => second.notLink (first.notLink notLink),
    second.frame.1.trans first.frame.1, second.frame.2.trans first.frame.2⟩
  rcases second.touched p mem with before | inside
  · exact first.touched p before
  · exact .inr inside

/-- Touching places inside sync_dir. -/
theorem touched_touch {disk : Disk} {places : List (Place Bytes)}
    (inside : ∀ p ∈ places, root.Inside p) :
    ∀ p ∈ (s.touch disk places).touched, p ∈ s.touched ∨ root.Inside p := by
  intro p mem
  rcases List.mem_append.mp mem with before | now
  · exact .inl before
  · exact .inr (inside p now)

/-- Nothing new at any place, one of them touched. -/
theorem kept_gone {p : Place Bytes} {disk : Disk} (stays : StaysInside root path s)
    (located : locate s.disk root path = some p)
    (old : ∀ q n, disk.node q = some n → s.disk.node q = some n) :
    Kept root s (s.touch disk [p]) := by
  refine ⟨⟨fun q dir => old q _ dir, fun q target link => old q _ link⟩, touched_touch ?_, rfl, rfl⟩
  exact fun q mem => List.mem_singleton.mp mem ▸ inside_of_locate stays located

/-- `unlink` follows the directories above the name, and not the name. -/
theorem kept_unlink (stays : StaysInside root path s) : Kept root s (s.unlink root path).1 := by
  unfold State.unlink
  split
  · exact .refl root s
  · rename_i p located
    split
    · rename_i disk removed
      refine kept_gone stays located fun q n node => ?_
      rw [FileTree.node_unlink removed] at node
      split at node
      · cases node
      · exact node
    · exact .refl root s

/-- `rmdir` follows the directories above the name. -/
theorem kept_rmdir (stays : StaysInside root path s) : Kept root s (s.rmdir root path).1 := by
  unfold State.rmdir
  split
  · exact .refl root s
  · rename_i p located
    split
    · rename_i disk removed
      refine kept_gone stays located fun q n node => ?_
      rw [FileTree.node_rmdir removed] at node
      split at node
      · cases node
      · exact node
    · exact .refl root s

/-- Renaming moves one leaf, between two places inside sync_dir. -/
theorem rename_cases {source : Bytes} (from_ : StaysInside root source s)
    (dest : StaysInside root path s) :
    (s.rename root source path).1 = s ∨
      ∃ p q leaf disk, locate s.disk root source = some p ∧ locate s.disk root path = some q ∧
        s.disk.node p = some (.file leaf) ∧ (s.rename root source path).1 = s.touch disk [p, q] ∧
        (∀ r, disk.node r = if r = q then some (.file leaf) else if r = p then none
          else s.disk.node r) ∧
        ∀ r ∈ [p, q], root.Inside r := by
  unfold State.rename
  split
  · rename_i p q source_ target
    split
    · rename_i disk moved
      obtain ⟨leaf, file⟩ := FileTree.file_of_rename moved
      refine .inr ⟨p, q, leaf, disk, source_, target, FileTree.file?_eq_some_iff.mp file, rfl,
        fun r => FileTree.node_rename file moved, fun r mem => ?_⟩
      rcases List.mem_cons.mp mem with rfl | last
      · exact inside_of_locate from_ source_
      · exact List.mem_singleton.mp last ▸ inside_of_locate dest target
    · exact .inl rfl
  · exact .inl rfl

/-- Renaming what is no link. -/
theorem kept_rename {source : Bytes} (from_ : StaysInside root source s)
    (dest : StaysInside root path s)
    (regular : ∀ p target, locate s.disk root source = some p →
      s.disk.node p ≠ some (.file (.link target))) :
    Kept root s (s.rename root source path).1 := by
  rcases rename_cases from_ dest with same | ⟨p, q, leaf, disk, located, -, here, moved,
    after, inside⟩
  · rw [same]
    exact .refl root s
  · rw [moved]
    refine ⟨⟨fun r dir => ?_, fun r target link => ?_⟩, touched_touch inside, rfl, rfl⟩
    · rw [State.touch, after] at dir
      split at dir
      · cases dir
      · split at dir
        · cases dir
        · exact dir
    · rw [State.touch, after] at link
      split at link
      · cases link
        exact absurd here (regular p target located)
      · split at link
        · cases link
        · exact link

end Calls

/-! ## Files directly in sync_dir -/

section Top

variable {root : Place Bytes} {name path : Bytes} {s s' : State}

/-- A reserved name is one component. -/
def Top (name : Bytes) : Prop := slash ∉ name ∧ elements name = [.name name]

/-- Names the client reserves for itself lie in sync_dir itself. -/
theorem top_reserved {rest : Bytes} (plain : slash ∉ rest) : Top (RESERVED_PREFIX ++ rest) := by
  have whole : slash ∉ RESERVED_PREFIX ++ rest := by
    intro mem
    rcases List.mem_append.mp mem with front | back
    · exact absurd front (by decide)
    · exact plain back
  refine ⟨whole, ?_⟩
  have dot : (RESERVED_PREFIX ++ rest == bytes ".") = false := rfl
  have dots : (RESERVED_PREFIX ++ rest == bytes "..") = false := rfl
  rw [elements, List.splitOn_eq_singleton whole, List.map_singleton, element, dot, dots]
  rfl

private theorem digit_plain : ∀ d < 16,
    (if d.toUInt8 < 10 then 0x30 + d.toUInt8 else 0x57 + d.toUInt8) ≠ slash := by
  decide

/-- The names of temporary files are reserved. -/
theorem top_tempName (random : UInt64) : Top (tempName random) := by
  rw [tempName, List.append_assoc]
  refine top_reserved fun mem => ?_
  rcases List.mem_append.mp mem with front | digits
  · exact absurd front (by decide)
  · obtain ⟨i, -, digit⟩ := List.mem_map.mp digits
    exact digit_plain _ (Nat.mod_lt _ (by decide)) digit

theorem top_stateName : Top stateName := top_reserved (by decide)

/-- The name of the temporary file of the saved state is reserved. -/
theorem top_stateTemp : Top stateTemp := by
  rw [stateTemp, stateName, List.append_assoc]
  exact top_reserved (by decide)

/-- There is no directory on the way to such a name. -/
theorem Top.staysInside (top : Top name) : StaysInside root name s := staysInside_plain top.1

/-- Opening it leads to the name itself, when that is no link. -/
theorem reach_top (top : Top name) (notLink : NotLink root name s) {p : Place Bytes}
    (reached : reach s.disk (MAX_LINKS + 1) MAX_LINKS root (elements name) = some p) :
    p = root.child name := by
  rw [top.2, reach] at reached
  rw [show ([Element.name name] : List (Element Bytes)).getLast? = some (.name name) from rfl,
    show ([Element.name name] : List (Element Bytes)).dropLast = [] from rfl,
      resolve_nil] at reached
  dsimp only at reached
  split at reached
  · cases reached
  · rename_i target _ link _
    exact absurd link (notLink target)
  · cases reached
  · cases reached
    rfl

/-- Writing to what is no link touches the name itself; afterwards it is a file. -/
theorem kept_write (top : Top name) (notLink : NotLink root name s) (file : File) :
    Kept root s (s.write root name file).1 ∧ ((s.write root name file).2 = true →
      (s.write root name file).1.disk.node (root.child name) = some (.file (.file file))) := by
  unfold State.write
  split
  · exact ⟨.refl root s, nofun⟩
  · rename_i p reached
    obtain rfl := reach_top top notLink reached
    split
    · rename_i disk placed
      refine ⟨⟨⟨fun q dir => ?_, fun q target link => ?_⟩, touched_touch ?_, rfl, rfl⟩, fun _ => ?_⟩
      · rw [State.touch, FileTree.node_place placed] at dir
        split at dir
        · cases dir
        · exact dir
      · rw [State.touch, FileTree.node_place placed] at link
        split at link
        · cases link
        · exact link
      · intro q mem
        rw [List.mem_singleton.mp mem]
        exact (Place.within_refl root).inside_child name
      · rw [State.touch, FileTree.node_place placed, if_pos rfl]
    · exact ⟨.refl root s, nofun⟩

/-- Saving touches the saved state and its temporary file. -/
theorem kept_save (notLink : NotLink root stateTemp s) : Kept root s (s.save root) := by
  obtain ⟨written, file⟩ := kept_write top_stateTemp notLink stateFile
  unfold State.save
  dsimp only
  split
  · rename_i ok
    refine written.trans (kept_rename top_stateTemp.staysInside top_stateName.staysInside ?_)
    intro p target located link
    have place : some (root.child stateTemp) = some p :=
      (locate_plain top_stateTemp.1).symm.trans located
    cases place
    have here := file ok
    rw [here] at link
    cases link
  · exact written

/-- Receiving touches its temporary file. -/
theorem kept_receive (random : UInt64) (notLink : NotLink root (tempName random) s)
    (transfer : Transfer) : Kept root s (s.receive root (tempName random) transfer).1 := by
  have top := top_tempName random
  have removed : ∀ s' : State, Kept root s s' →
      Kept root s (s'.unlink root (tempName random)).1 := fun s' kept =>
    kept.trans (kept_unlink top.staysInside)
  unfold State.receive
  cases transfer with
  | complete file =>
    have written := (kept_write top notLink file).1
    dsimp only
    split
    · exact written
    · exact removed (s.write root (tempName random) file).1 written
  | failed file result =>
    exact removed (s.write root (tempName random) file).1 (kept_write top notLink file).1

end Top

/-! ## The directories above a name -/

section Directories

variable {root : Place Bytes} {name path : Bytes} {s s' : State}

/-- Only directories above the name are removed. -/
theorem kept_removeEmptyParents (proper : Proper path) {ds : List Bytes}
    (above : ∀ d ∈ ds, d ∈ dirs path)
    (stays : StaysInside root path s) : Kept root s (State.removeEmptyParents root ds s) := by
  induction ds generalizing s with
  | nil => exact .refl root s
  | cons d ds ih =>
    have one := kept_rmdir (stays.dir proper (above d List.mem_cons_self))
    unfold State.removeEmptyParents
    dsimp only
    split
    · refine one.trans (ih (fun d mem => above d (List.mem_cons_of_mem _ mem)) ?_)
      exact one.staysInside stays
    · exact one

/-- Every directory made lies on the way, so the rest of it still stays inside. -/
private theorem makeDirs_cut (proper : Proper path) {before ds : List Bytes}
    (cut : dirs path = before ++ ds) (stays : StaysInside root path s) :
    StaysInside root path (State.makeDirs root ds s).1 ∧
      Confined root s (State.makeDirs root ds s).1 := by
  induction ds generalizing before s with
  | nil => exact ⟨stays, .refl root s⟩
  | cons d ds ih =>
    have above : d ∈ dirs path := cut ▸ List.mem_append_right _ List.mem_cons_self
    have one : StaysInside root path (s.mkdir root d).1 ∧ Confined root s (s.mkdir root d).1 := by
      unfold State.mkdir
      split
      · exact ⟨stays, .refl root s⟩
      · rename_i p located
        have inside := inside_of_locate (stays.dir proper above) located
        split
        · rename_i disk made
          constructor
          · obtain ⟨r, reached, rfl⟩ := Option.map_eq_some_iff.mp located
            rw [elements_parentPath (proper.dir above), dirs_cut cut] at reached
            unfold StaysInside at stays ⊢
            rw [elements_parentPath proper, cut, List.map_append, List.map_cons] at stays ⊢
            refine stays.mkdir (fun e mem => ?_) reached made
            obtain ⟨d', -, rfl⟩ := List.mem_map.mp mem
            exact ⟨_, rfl⟩
          · refine ⟨touched_touch fun q mem => List.mem_singleton.mp mem ▸ inside, ?_, rfl, rfl⟩
            intro notLink target link
            rw [State.touch, FileTree.node_mkdir made] at link
            split at link
            · cases link
            · exact notLink target link
        · exact ⟨stays, .refl root s⟩
    unfold State.makeDirs
    dsimp only
    split
    · have longer : dirs path = (before ++ [d]) ++ ds := by
        rw [cut, List.append_assoc, List.singleton_append]
      have rest := ih longer one.1
      exact ⟨rest.1, one.2.trans rest.2⟩
    · exact one

/-- Making the directories above a name keeps the way to it inside sync_dir. -/
theorem makeParentDirs_spec (proper : Proper path) (stays : StaysInside root path s) :
    StaysInside root path (s.makeParentDirs root path).1 ∧
      Confined root s (s.makeParentDirs root path).1 :=
  makeDirs_cut proper (List.nil_append _).symm stays

end Directories

/-! ## The handlers -/

section Handlers

variable {root : Place Bytes} {name path : Bytes} {s s' : State}

theorem Proper.baseName_ne (proper : Proper path) : baseName path ≠ stateTemp := by
  intro eq
  have valid := proper path (List.mem_append_right _ (List.mem_singleton_self _))
  rw [eq] at valid
  exact absurd valid (by decide)

/-- `conflict_name` gives one of its candidates. -/
theorem conflictName_eq (root : Place Bytes) (s : State) (name : Bytes) (stamp : Stamp) :
    ∃ attempt, s.conflictName root name stamp = conflictCandidate name stamp attempt := by
  unfold State.conflictName
  dsimp only
  cases found : List.find? _ _ with
  | none => exact ⟨1, rfl⟩
  | some c =>
    obtain ⟨i, -, rfl⟩ := List.mem_map.mp (List.mem_of_find?_eq_some found)
    exact ⟨i + 1, rfl⟩

/-- A conflicted copy lies beside the file. -/
theorem parentPath_conflictName (valid : isValidPath name = true) (stamp : Stamp) :
    parentPath (s.conflictName root name stamp) = parentPath name := by
  obtain ⟨attempt, eq⟩ := conflictName_eq root s name stamp
  rw [eq, parentPath_conflictCandidate valid]

/-- Removing or renaming what is in the way touches the name and its copy. -/
theorem kept_makeWay (valid : isValidPath name = true) (stays : StaysInside root name s)
    (info : FileInfo) (stamp : Stamp) : Kept root s (s.makeWay root name info stamp) := by
  unfold State.makeWay
  split
  · rename_i current found
    split
    · refine kept_rename stays ?_ fun p target located link => ?_
      · unfold StaysInside
        rw [parentPath_conflictName valid]
        exact stays
      · have missing : s.file? root name = none := by
          rw [State.file?, located, Option.bind_some, FileTree.file?_eq_some_iff.mpr link]
        rw [State.localFile, missing] at found
        cases found
    · exact .refl root s
  · exact .refl root s

/-- Whatever the temporary file became, moving it does not touch that of the state. -/
theorem confined_rename (proper : Proper name) (stays : StaysInside root name s) {temp : Bytes}
    (top : Top temp) : Confined root s (s.rename root temp name).1 := by
  rcases rename_cases top.staysInside stays with
    same | ⟨p, q, leaf, disk, -, located, -, moved, after, inside⟩
  · rw [same]
    exact .refl root s
  · rw [moved]
    refine ⟨touched_touch inside, fun notLink target link => ?_, rfl, rfl⟩
    rw [State.touch, after] at link
    split at link
    · rename_i same
      obtain ⟨r, -, rfl⟩ := Option.map_eq_some_iff.mp located
      exact proper.baseName_ne (Place.child_inj same).2.symm
    · split at link
      · cases link
      · exact notLink target link

/-- The rename to the name ends inside. -/
theorem confined_moveIn (valid : isValidPath name = true) (stays : StaysInside root name s)
    {temp : Bytes} (top : Top temp) (info : FileInfo) :
    Confined root s (s.moveIn root temp name info) := by
  have proper := proper_of_isValidPath valid
  unfold State.moveIn
  dsimp only
  generalize recorded : ({ s with base := s.base.insert name { info with name } } : State) = s₁
  have same : Confined root s s₁ := by
    subst recorded
    exact ⟨fun p => .inl, id, rfl, rfl⟩
  have stays₁ : StaysInside root name s₁ := by
    subst recorded
    exact stays
  obtain ⟨stays₂, made⟩ := makeParentDirs_spec proper stays₁
  have moved : Confined root s₁ (if (s₁.makeParentDirs root name).2 then
      (s₁.makeParentDirs root name).1.rename root temp name else s₁.makeParentDirs
        root name).1 := by
    split
    · exact made.trans (confined_rename proper stays₂ top)
    · exact made
  revert moved
  generalize (if (s₁.makeParentDirs root name).2 then
      (s₁.makeParentDirs root name).1.rename root temp name
    else s₁.makeParentDirs root name) = renamed
  intro moved
  split
  · exact same.trans moved
  · have removed := same.trans (moved.trans (kept_unlink top.staysInside).confined)
    exact ⟨removed.touched, removed.notLink, removed.frame⟩

/-- Every call of `install` stays inside. -/
theorem confined_install (valid : isValidPath name = true) (stays : StaysInside root name s)
    (notLink : NotLink root stateTemp s) {temp : Bytes} (top : Top temp) (info : FileInfo)
    (stamp : Stamp) : Confined root s (s.install root temp name info stamp) := by
  have way := kept_makeWay valid stays info stamp
  have moved := way.confined.trans (confined_moveIn valid (way.staysInside stays) top info)
  exact moved.trans (kept_save (moved.notLink notLink)).confined

/-- A download that is installed stays inside. -/
theorem confined_pull (valid : isValidPath name = true) (stays : StaysInside root name s)
    (notLink : NotLink root stateTemp s) {turn : Turn}
    (temporary : NotLink root (tempName turn.random) s) :
    Confined root s (pull root turn s name).1 := by
  unfold pull
  split
  · exact .refl root s
  · rename_i info transfer _
    have got := kept_receive turn.random temporary transfer
    dsimp only
    split
    · exact got.confined.trans (confined_install valid (got.staysInside stays)
        (got.notLink notLink) (top_tempName _) info turn.stamp)
    · exact got.confined

/-- A deletion stays inside, with the directories it leaves empty. -/
theorem confined_remove (valid : isValidPath name = true) (stays : StaysInside root name s) :
    Confined root s (State.removeEmptyParents root (dirs name).reverse (s.unlink root name).1) := by
  have one := kept_unlink stays
  exact (one.trans (kept_removeEmptyParents (proper_of_isValidPath valid)
    (fun d mem => List.mem_reverse.mp mem) (one.staysInside stays))).confined

end Handlers

/-! ## Runs -/

/-- Whether `reconcile` changes what is in sync_dir. -/
def changesLocal (base here there : Option FileInfo) : Bool :=
  match here, there with
  | none, none => false
  | some h, some t => !sameContent h t && !shouldPush base here there
  | _, _ => !shouldPush base here there

/-- No symbolic link on the way to the name that is handled leads out of sync_dir,
and the temporary file and the one of the saved state are not links. -/
def Safe (root : Place Bytes) (s : State) : Label → Prop
  | .user _ | .list _ => True
  | .receive _ random _ => NotLink root (tempName random) s
  | .install _ => ∀ r, s.received = some r →
      StaysInside root r.info.name s ∧ NotLink root stateTemp s
  | .pushDelete name => isValidPath name = true →
      StaysInside root name s ∧ NotLink root stateTemp s
  | .next turn => NotLink root stateTemp s ∧
      ∀ here there name names, s.loop = some ⟨here, there, name :: names⟩ →
        changesLocal s.base[name]? here[name]? there[name]? = true →
          StaysInside root name s ∧ NotLink root (tempName turn.random) s

/-- What was touched is inside sync_dir; names that are handled were checked. -/
structure Inv (root : Place Bytes) (s : State) : Prop where
  touched : ∀ p ∈ s.touched, root.Inside p
  received : ∀ r, s.received = some r →
    isValidPath r.info.name = true ∧ ∃ random, r.temp = tempName random
  loop : ∀ l, s.loop = some l → ∀ name,
    (l.here[name]? ≠ none ∨ l.there[name]? ≠ none) → isValidPath name = true

section Runs

variable {root : Place Bytes} {s s' : State}

/-- Reconciling a name stays inside, when the way to it does wherever something is changed
here. -/
theorem confined_reconcileName {name : Bytes} {here there : Option FileInfo} {turn : Turn}
    (valid : here ≠ none ∨ there ≠ none → isValidPath name = true)
    (notLink : NotLink root stateTemp s)
    (safe : changesLocal s.base[name]? here there = true →
      StaysInside root name s ∧ NotLink root (tempName turn.random) s) :
    Confined root s (reconcileName root turn s name here there).1 := by
  unfold reconcileName
  split
  · exact ⟨fun p => .inl, id, rfl, rfl⟩
  · rename_i h t
    split
    · exact ⟨fun p => .inl, id, rfl, rfl⟩
    · rename_i other
      split
      · unfold reconcileName.upload
        dsimp only
        split
        · exact ⟨fun p => .inl, id, rfl, rfl⟩
        · exact .refl root s
      · rename_i decision
        have changes : changesLocal s.base[name]? (some h) (some t) = true := by
          rw [changesLocal, Bool.eq_false_iff.mpr other, Bool.eq_false_iff.mpr decision]
          rfl
        exact confined_pull (valid (.inl (Option.some_ne_none h))) (safe changes).1 notLink
          (safe changes).2
  · rename_i h
    split
    · unfold reconcileName.upload
      dsimp only
      split
      · exact ⟨fun p => .inl, id, rfl, rfl⟩
      · exact .refl root s
    · rename_i decision
      have changes : changesLocal s.base[name]? (some h) none = true :=
        Bool.not_eq_true' _ ▸ Bool.eq_false_iff.mpr decision
      have removed := confined_remove (valid (.inl (Option.some_ne_none h))) (safe changes).1
      exact ⟨removed.touched, removed.notLink, removed.frame⟩
  · rename_i t
    split
    · dsimp only
      split
      · exact .refl root s
      · exact ⟨fun p => .inl, id, rfl, rfl⟩
    · rename_i decision
      have changes : changesLocal s.base[name]? none (some t) = true :=
        Bool.not_eq_true' _ ▸ Bool.eq_false_iff.mpr decision
      exact confined_pull (valid (.inr (Option.some_ne_none t))) (safe changes).1 notLink
        (safe changes).2

/-- What the scan lists are valid paths. -/
theorem isValidPath_of_localFiles {name : Bytes} (listed : (s.localFiles root)[name]? ≠ none) :
    isValidPath name = true := by
  obtain ⟨info, mem⟩ := Map.mem_ofPairs.mp (Map.mem_iff_ne_none.mpr listed)
  obtain ⟨entry, -, entered⟩ := List.mem_filterMap.mp mem
  split at entered
  · dsimp only at entered
    split at entered
    · rename_i ok
      cases entered
      exact (Bool.and_eq_true_iff.mp ok).2
    · cases entered
  · cases entered

theorem Inv.confined (inv : Inv root s) (confined : Confined root s s')
    (received : s'.received = s.received ∨ s'.received = none) (loop : s'.loop = s.loop) :
    Inv root s' := by
  refine ⟨fun p mem => ?_, fun r held => ?_, fun l running => inv.loop l (loop ▸ running)⟩
  · rcases confined.touched p mem with before | inside
    · exact inv.touched p before
    · exact inside
  · rcases received with same | gone
    · exact inv.received r (same ▸ held)
    · rw [gone] at held
      cases held

theorem Inv.receive (inv : Inv root s) {info : FileInfo} {random : UInt64} {transfer : Transfer}
    (safe : NotLink root (tempName random) s)
    (stepped : step root s (.receive info random transfer) = some s') : Inv root s' := by
  have got := kept_receive random safe transfer
  simp only [step] at stepped
  split at stepped
  · cases stepped
  · split at stepped
    · split at stepped
      · rename_i idle _ valid
        cases stepped
        have kept := inv.confined got.confined (.inl got.frame.1) got.frame.2
        refine ⟨kept.touched, fun r held => ?_, kept.loop⟩
        cases held
        exact ⟨valid, random, rfl⟩
      · cases stepped
        have removed := got.trans (kept_unlink (top_tempName random).staysInside)
        exact inv.confined removed.confined (.inl removed.frame.1) removed.frame.2
    · cases stepped
      exact inv.confined got.confined (.inl got.frame.1) got.frame.2

/-- An installed push keeps the invariant. -/
theorem Inv.install (inv : Inv root s) {stamp : Stamp} (safe : Safe root s (.install stamp))
    (stepped : step root s (.install stamp) = some s') : Inv root s' := by
  simp only [step] at stepped
  split at stepped
  · rename_i r held idle
    cases stepped
    obtain ⟨valid, random, temp⟩ := inv.received r held
    obtain ⟨stays, notLink⟩ := safe r held
    have installed := confined_install valid stays notLink (top_tempName random) r.info stamp
    rw [temp]
    have after := inv.confined installed (.inl installed.frame.1) installed.frame.2
    exact ⟨after.touched, nofun, after.loop⟩
  · cases stepped

/-- A pushed deletion keeps the invariant. -/
theorem Inv.pushDelete (inv : Inv root s) {name : Bytes} (safe : Safe root s (.pushDelete name))
    (stepped : step root s (.pushDelete name) = some s') : Inv root s' := by
  simp only [step] at stepped
  split at stepped
  · split at stepped
    · rename_i valid
      obtain ⟨stays, notLink⟩ := safe valid
      have saved : Kept root s (State.save root { s with base := s.base.erase name }) := by
        have written : Kept root { s with base := s.base.erase name } _ := kept_save notLink
        exact ⟨written.leads, written.touched, written.frame⟩
      have stays' := saved.staysInside stays
      cases stepped
      split
      · have removed := saved.confined.trans (confined_remove valid stays')
        exact inv.confined removed (.inl removed.frame.1) removed.frame.2
      · have removed := saved.trans (kept_unlink stays')
        exact inv.confined removed.confined (.inl removed.frame.1) removed.frame.2
    · cases stepped
      exact inv
  · cases stepped

theorem Inv.list (inv : Inv root s) {remote : List FileInfo}
    (stepped : step root s (.list remote) = some s') : Inv root s' := by
  simp only [step] at stepped
  split at stepped
  · cases stepped
  · cases stepped
    refine ⟨inv.touched, inv.received, fun l running name known => ?_⟩
    cases running
    rcases known with here | there
    · exact isValidPath_of_localFiles here
    · obtain ⟨info, listed⟩ := Option.ne_none_iff_exists'.mp there
      exact Unreadable.isValidPath_of_remoteMap listed

/-- Each name of a comparison keeps the invariant, and its end does. -/
theorem Inv.next (inv : Inv root s) {turn : Turn} (safe : Safe root s (.next turn))
    (stepped : step root s (.next turn) = some s') : Inv root s' := by
  simp only [step] at stepped
  split at stepped
  · cases stepped
  · cases stepped
    have saved := inv.confined (kept_save safe.1).confined (.inl (kept_save safe.1).frame.1)
      (kept_save safe.1).frame.2
    exact ⟨saved.touched, saved.received, nofun⟩
  · rename_i here there name names running
    have one := confined_reconcileName (inv.loop _ running name) safe.1
      (safe.2 here there name names running)
    have after := inv.confined one (.inl one.frame.1) one.frame.2
    split at stepped
    · cases stepped
      have saved := kept_save (one.notLink safe.1)
      have ended := after.confined saved.confined (.inl saved.frame.1) saved.frame.2
      exact ⟨ended.touched, ended.received, nofun⟩
    · cases stepped
      refine ⟨after.touched, after.received, fun l still => ?_⟩
      cases still
      exact fun name known => inv.loop _ running name known

/-- Every step keeps what is touched inside sync_dir. -/
theorem Inv.step (inv : Inv root s) {label : Label} (safe : Safe root s label)
    (stepped : step root s label = some s') : Inv root s' := by
  cases label with
  | user disk =>
    simp only [Symlinks.step] at stepped
    split at stepped
    · cases stepped
      exact ⟨inv.touched, inv.received, inv.loop⟩
    · cases stepped
  | receive info random transfer => exact inv.receive safe stepped
  | install stamp => exact inv.install safe stepped
  | pushDelete name => exact inv.pushDelete safe stepped
  | list remote => exact inv.list stepped
  | next turn => exact inv.next safe stepped

end Runs

/-- **A server cannot reach outside sync_dir** as long as no symbolic link does: in
every run in which no link on the way to a name that is handled leads out of
sync_dir, and the client's own temporary files are no links, everything that is
created, overwritten, renamed or removed lies inside. -/
theorem touched_inside {root : Place Bytes} {s₀ s : State} {labels : List Label}
    (untouched : s₀.touched = []) (received : s₀.received = none) (loop : s₀.loop = none)
    (safe : Meets (step root) (Safe root) s₀ labels) (ran : run (step root) s₀ labels = some s) :
    ∀ p ∈ s.touched, root.Inside p := by
  have init : Inv root s₀ := by
    refine ⟨fun p mem => ?_, fun r held => ?_, fun l running => ?_⟩
    · rw [untouched] at mem
      cases mem
    · rw [received] at held
      cases held
    · rw [loop] at running
      cases running
  exact (run_invariant (fun s a s' inv ok stepped => inv.step ok stepped) init safe ran).touched

/-! ## A link that leads out -/

/-- `/h/s` with a link `out` to the folder `/h/o` beside it. -/
def linked : State where
  disk :=
    let home : Place Bytes := ⟨[bytes "h"]⟩
    let made := [.root, home, home.child (bytes "s"), home.child (bytes "o")].foldl
      (fun (disk : Disk) p => (disk.mkdir p).getD disk) ∅
    (made.place ((home.child (bytes "s")).child (bytes "out"))
      (.link ⟨true, [.name (bytes "h"), .name (bytes "o")]⟩)).getD made
  base := ∅
  received := none
  loop := none
  touched := []

/-- sync_dir in these runs. -/
def syncDir : Place Bytes := ⟨[bytes "h", bytes "s"]⟩

/-- The server sends a file of that name. -/
def sent (name : Bytes) : Label :=
  let file : File := .single 0x78 0
  .receive (file.info name) 7 (.complete file)

def afternoon : Stamp := ⟨bytes "2026-10-20", bytes "14.03.07", by decide, by decide, by decide⟩

def pushed (name : Bytes) : List Label :=
  [sent name, .install afternoon]

theorem pushed_outside : ¬∀ (root : Place Bytes) (s₀ s : State) (labels : List Label),
    s₀.touched = [] → s₀.received = none → s₀.loop = none →
      run (step root) s₀ labels = some s → ∀ p ∈ s.touched, root.Inside p := by
  intro always
  have runs : ((run (step syncDir) linked (pushed (bytes "out/x"))).map
      State.touched).any (fun touched => decide (⟨[bytes "h", bytes "o", bytes "x"]⟩ ∈ touched)) =
        true := by
    decide +kernel
  cases ran : run (step syncDir) linked (pushed (bytes "out/x")) with
  | none =>
    rw [ran] at runs
    cases runs
  | some s =>
    rw [ran, Option.map_some, Option.any_some, decide_eq_true_eq] at runs
    have inside := always _ linked s _ rfl rfl rfl ran _ runs
    exact absurd inside.1 (by unfold Place.Within; decide)

/-- A folder that is not there yet is made inside. -/
theorem pushed_inside : ∃ s, run (step syncDir) linked (pushed (bytes "in/x")) = some s ∧
    ∀ p ∈ s.touched, syncDir.Inside p := by
  have ends : (run (step syncDir) linked (pushed (bytes "in/x"))).isSome = true := by
    decide +kernel
  obtain ⟨s, ran⟩ := Option.isSome_iff_exists.mp ends
  have safe : Meets (step syncDir) (Safe syncDir) linked (pushed (bytes "in/x")) := by
    refine ⟨?_, ?_⟩
    · have absent : linked.disk.node (syncDir.child (tempName 7)) = none := by decide +kernel
      intro target
      rw [absent]
      nofun
    · split
      · rename_i s₁ received
        have facts : (step syncDir linked (sent (bytes "in/x"))).all (fun s =>
            (s.disk.node (syncDir.child (bytes "in"))).isNone &&
              (s.disk.node (syncDir.child stateTemp)).isNone &&
              s.received.all fun r => decide (r.info.name = bytes "in/x")) = true := by
          decide +kernel
        rw [received, Option.all_some, Bool.and_eq_true, Bool.and_eq_true,
          Option.isNone_iff_eq_none, Option.isNone_iff_eq_none] at facts
        obtain ⟨⟨folder, temp⟩, named⟩ := facts
        refine ⟨fun r held => ?_, ?_⟩
        · rw [held, Option.all_some, decide_eq_true_eq] at named
          refine ⟨?_, fun target => ?_⟩
          · have way : elements (parentPath (bytes "in/x")) = [.name (bytes "in")] := by
              decide +kernel
            rw [StaysInside, named, way]
            intro front shorter reached resolved
            rcases List.prefix_cons_iff.mp shorter with rfl | ⟨rest, rfl, -⟩
            · rw [resolve_nil] at resolved
              cases resolved
              exact Place.within_refl _
            · rw [resolve_name, folder] at resolved
              cases resolved
          · rw [temp]
            nofun
        · split
          · trivial
          · trivial
      · trivial
  exact ⟨s, ran, touched_inside rfl rfl rfl safe ran⟩

end SisOp.Symlinks
