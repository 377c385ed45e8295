import SisOp.Server.Storage
import Mathlib.Data.Nat.Digits.Defs
import Mathlib.Data.List.Nodup

/-!
# A synced directory and its saved state

`sync_dir` and the state saved at the last sync, with the functions of
`client/client.cpp` that compare and replace local files: `fill_hash`,
`local_file`, `conflict_name` and `install`. Names the program reserves for
itself are not part of the tree.
-/

namespace SisOp

open Lib Std

/-- `same_content`. -/
def sameContent (a b : FileInfo) : Bool := a.hash == b.hash && a.size == b.size

theorem sameContent_iff {a b : FileInfo} :
    sameContent a b = true ↔ a.hash = b.hash ∧ a.size = b.size := by
  rw [sameContent, Bool.and_eq_true, beq_iff_eq, beq_iff_eq]

theorem sameContent_trans {a b c : FileInfo} (left : sameContent a b = true)
    (right : sameContent b c = true) : sameContent a c = true := by
  rw [sameContent_iff] at *
  exact ⟨left.1.trans right.1, left.2.trans right.2⟩

theorem sameContent_comm {a b : FileInfo} : sameContent a b = sameContent b a := by
  rw [Bool.eq_iff_iff, sameContent_iff, sameContent_iff, eq_comm, eq_comm (a := a.size)]

/-- The tree on disk and the entries of `SyncState`. -/
structure SyncDir where
  tree : FileTree Bytes File
  base : ExtTreeMap Bytes FileInfo

/-! ## The name of a conflicted copy -/

/-- A time as `strftime` writes it with `%Y-%m-%d %H.%M.%S`: a date and a time
without spaces or slashes, the time with dots. -/
structure Stamp where
  date : Bytes
  time : Bytes
  date_plain : (0x20 : UInt8) ∉ date ∧ slash ∉ date
  time_plain : (0x20 : UInt8) ∉ time ∧ slash ∉ time
  time_dotted : (0x2E : UInt8) ∈ time
  deriving DecidableEq

/-- `std::to_string`. -/
def decimal (n : Nat) : Bytes := ((Nat.digits 10 n).map fun d => 0x30 + d.toUInt8).reverse

/-- `" (conflicted copy <stamp>)"`, numbered from the second attempt on. -/
def conflictTag (stamp : Stamp) (attempt : Nat) : Bytes :=
  bytes " (conflicted copy " ++ stamp.date ++ [0x20] ++ stamp.time ++
    (if attempt > 1 then [0x20] ++ decimal attempt else []) ++ bytes ")"

/-- The place of the dot the extension starts at: the last one, unless it comes
first. -/
def extensionStart (file : Bytes) : Nat :=
  match (List.range file.length).reverse.find? fun i => file[i]? = some 0x2E with
  | none | some 0 => file.length
  | some dot => dot

/-- The name tried at one attempt of `conflict_name`. -/
def conflictCandidate (name : Bytes) (stamp : Stamp) (attempt : Nat) : Bytes :=
  let dir := parentPath name
  let file := baseName name
  let stem := file.take (extensionStart file)
  let extension := file.drop (extensionStart file)
  let tag := conflictTag stamp attempt
  let room := MAX_NAME_LENGTH - tag.length - min extension.length 32
  let candidate := stem.take room ++ tag ++ extension.take 32
  if dir.isEmpty then candidate else dir ++ slash :: candidate

/-- The last component of a name that is tried. -/
def conflictFile (file : Bytes) (stamp : Stamp) (attempt : Nat) : Bytes :=
  (file.take (extensionStart file)).take (MAX_NAME_LENGTH - (conflictTag stamp attempt).length -
      min (file.drop (extensionStart file)).length 32) ++
    conflictTag stamp attempt ++ (file.drop (extensionStart file)).take 32

theorem conflictCandidate_eq (name : Bytes) (stamp : Stamp) (attempt : Nat) :
    conflictCandidate name stamp attempt =
      if (parentPath name).isEmpty then conflictFile (baseName name) stamp attempt
      else parentPath name ++ slash :: conflictFile (baseName name) stamp attempt := rfl

/-- Each digit is one byte, no space, dot or slash, and can be read back. -/
private theorem digit_spec : ∀ d < 10, (0x30 + d.toUInt8 : UInt8) ≠ 0x20 ∧
    (0x30 + d.toUInt8 : UInt8) ≠ 0x2E ∧ (0x30 + d.toUInt8 : UInt8) ≠ slash ∧
    (0x30 + d.toUInt8 : UInt8).toNat - 0x30 = d := by
  decide

private theorem decimal_plain (n : Nat) :
    (0x20 : UInt8) ∉ decimal n ∧ (0x2E : UInt8) ∉ decimal n ∧ slash ∉ decimal n := by
  simp only [decimal, List.mem_reverse, List.mem_map, not_exists, not_and]
  exact ⟨fun d mem => (digit_spec d (Nat.digits_lt_base (by decide) mem)).1,
    fun d mem => (digit_spec d (Nat.digits_lt_base (by decide) mem)).2.1,
    fun d mem => (digit_spec d (Nat.digits_lt_base (by decide) mem)).2.2.1⟩

private theorem decimal_inj {m n : Nat} (same : decimal m = decimal n) : m = n := by
  have read : ∀ n, (decimal n).reverse.map (fun c => c.toNat - 0x30) = Nat.digits 10 n := by
    intro n
    rw [decimal, List.reverse_reverse, List.map_map]
    refine (List.map_congr_left fun d mem => ?_).trans (List.map_id _)
    exact (digit_spec d (Nat.digits_lt_base (by decide) mem)).2.2.2
  refine Nat.digits_inj_iff.mp (?_ : Nat.digits 10 m = Nat.digits 10 n)
  rw [← read m, ← read n, same]

/-- What follows the last space. -/
private def lastWord (text : Bytes) : Bytes := (text.reverse.takeWhile (· ≠ 0x20)).reverse

private theorem lastWord_append {front word : Bytes} (plain : (0x20 : UInt8) ∉ word) :
    lastWord (front ++ 0x20 :: word) = word := by
  have kept : ∀ c ∈ word.reverse, decide (c ≠ 0x20) = true := by
    intro c mem
    rw [decide_eq_true_eq]
    rintro rfl
    exact plain (List.mem_reverse.mp mem)
  rw [lastWord, List.reverse_append, List.reverse_cons, List.append_assoc,
    List.takeWhile_append_of_pos kept]
  simp

/-- The tags of different attempts end in different words. -/
private theorem lastWord_conflictTag (stamp : Stamp) (attempt : Nat) (front : Bytes) :
    ∃ tail, front ++ conflictTag stamp attempt = tail ++ bytes ")" ∧
      lastWord tail = if attempt > 1 then decimal attempt else stamp.time := by
  unfold conflictTag
  split
  · refine ⟨front ++ (bytes " (conflicted copy " ++ stamp.date ++ [0x20] ++ stamp.time) ++
      0x20 :: decimal attempt, by simp, lastWord_append (decimal_plain attempt).1⟩
  · refine ⟨front ++ (bytes " (conflicted copy " ++ stamp.date) ++ 0x20 :: stamp.time, by simp,
      lastWord_append stamp.time_plain.1⟩

theorem slash_not_mem_conflictTag (stamp : Stamp) (attempt : Nat) :
    slash ∉ conflictTag stamp attempt := by
  unfold conflictTag
  simp only [List.mem_append, not_or]
  refine ⟨⟨⟨⟨⟨by decide, stamp.date_plain.2⟩, by decide⟩, stamp.time_plain.2⟩, ?_⟩, by decide⟩
  split
  · exact fun mem => (List.mem_append.mp mem).elim (by decide) (decimal_plain attempt).2.2
  · exact List.not_mem_nil

theorem slash_not_mem_conflictFile {file : Bytes} (plain : slash ∉ file) (stamp : Stamp)
    (attempt : Nat) : slash ∉ conflictFile file stamp attempt := by
  simp only [conflictFile, List.mem_append, not_or]
  exact ⟨⟨fun mem => plain (List.mem_of_mem_take (List.mem_of_mem_take mem)),
    slash_not_mem_conflictTag stamp attempt⟩,
    fun mem => plain (List.mem_of_mem_drop (List.mem_of_mem_take mem))⟩

theorem baseName_conflictCandidate (name : Bytes) (stamp : Stamp) (attempt : Nat) :
    baseName (conflictCandidate name stamp attempt) = conflictFile (baseName name)
      stamp attempt := by
  have plain := slash_not_mem_conflictFile (slash_not_mem_baseName name) stamp attempt
  rw [conflictCandidate_eq]
  split
  · exact baseName_plain plain
  · exact baseName_append plain

/-- A conflicted copy lies in the directory of the file. -/
theorem dirs_conflictCandidate {name : Bytes} (valid : isValidPath name = true) (stamp : Stamp)
    (attempt : Nat) : dirs (conflictCandidate name stamp attempt) = dirs name := by
  have copy := slash_not_mem_conflictFile (slash_not_mem_baseName name) stamp attempt
  rw [conflictCandidate_eq]
  rcases path_cases name with plain | ⟨dir, base, rfl, plain⟩
  · rw [dirs_eq_nil plain, parentPath_plain plain, List.isEmpty_nil, if_pos rfl]
    exact dirs_eq_nil copy
  · have filled := List.isEmpty_eq_false_iff.mpr (dir_ne_nil valid plain)
    rw [parentPath_append plain, filled, if_neg Bool.false_ne_true, dirs_append copy,
      dirs_append plain]

theorem parentPath_conflictCandidate {name : Bytes} (valid : isValidPath name = true)
    (stamp : Stamp) (attempt : Nat) :
    parentPath (conflictCandidate name stamp attempt) = parentPath name := by
  rw [parentPath, dirs_conflictCandidate valid, parentPath]

/-- The tag is part of the name. -/
theorem mem_conflictFile (file : Bytes) (stamp : Stamp) (attempt : Nat) :
    (0x28 : UInt8) ∈ conflictFile file stamp attempt := by
  have opening : (0x28 : UInt8) ∈ bytes " (conflicted copy " := by decide
  simp [conflictFile, conflictTag, opening]

theorem mem_conflictCandidate (name : Bytes) (stamp : Stamp) (attempt : Nat) :
    (0x28 : UInt8) ∈ conflictCandidate name stamp attempt := by
  have tag := mem_conflictFile (baseName name) stamp attempt
  rw [conflictCandidate_eq]
  split
  · exact tag
  · exact List.mem_append_right _ (List.mem_cons_of_mem _ tag)

/-- Different attempts try different names. -/
theorem conflictFile_inj {file : Bytes} {stamp : Stamp} {m n : Nat} (hm : 1 ≤ m) (hn : 1 ≤ n)
    (same : conflictFile file stamp m = conflictFile file stamp n) : m = n := by
  unfold conflictFile at same
  obtain ⟨tailM, splitM, wordM⟩ := lastWord_conflictTag stamp m
    ((file.take (extensionStart file)).take (MAX_NAME_LENGTH - (conflictTag stamp m).length -
      min (file.drop (extensionStart file)).length 32))
  obtain ⟨tailN, splitN, wordN⟩ := lastWord_conflictTag stamp n
    ((file.take (extensionStart file)).take (MAX_NAME_LENGTH - (conflictTag stamp n).length -
      min (file.drop (extensionStart file)).length 32))
  rw [List.append_left_inj, splitM, splitN, List.append_left_inj] at same
  have words := congrArg lastWord same
  rw [wordM, wordN] at words
  split at words <;> split at words
  · exact decimal_inj words
  · exact ((decimal_plain m).2.1 (words ▸ stamp.time_dotted)).elim
  · exact ((decimal_plain n).2.1 (words ▸ stamp.time_dotted)).elim
  · omega

theorem conflictCandidate_inj {name : Bytes} {stamp : Stamp} {m n : Nat} (hm : 1 ≤ m) (hn : 1 ≤ n)
    (same : conflictCandidate name stamp m = conflictCandidate name stamp n) : m = n := by
  have files := congrArg baseName same
  rw [baseName_conflictCandidate, baseName_conflictCandidate] at files
  exact conflictFile_inj hm hn files

/-- The attempts `conflict_name` makes, one more than there are nodes. -/
def conflictAttempts (tree : FileTree Bytes File) (name : Bytes) (stamp : Stamp) : List Bytes :=
  (List.range (tree.nodes.keys.length + 1)).map fun i => conflictCandidate name stamp (i + 1)

/-- Some attempt finds no regular file. -/
theorem exists_conflict_free (tree : FileTree Bytes File) (name : Bytes) (stamp : Stamp) :
    ((conflictAttempts tree name stamp).find? fun c => tree.file? c = none).isSome = true := by
  have apart : Function.Injective fun i => conflictCandidate name stamp (i + 1) := fun i j same =>
    Nat.succ.inj (conflictCandidate_inj (Nat.le_add_left 1 i) (Nat.le_add_left 1 j) same)
  obtain ⟨i, bound, free⟩ := Map.exists_free tree.nodes apart
  rw [List.find?_isSome]
  refine ⟨_, List.mem_map_of_mem (List.mem_range.mpr bound), decide_eq_true ?_⟩
  simp only [FileTree.file?, FileTree.node, free]

/-- `conflict_name`: the first attempt at which there is no regular file. -/
def conflictName (tree : FileTree Bytes File) (name : Bytes) (stamp : Stamp) : Bytes :=
  ((conflictAttempts tree name stamp).find? fun c => tree.file? c = none).get
    (exists_conflict_free tree name stamp)

theorem conflictName_spec (tree : FileTree Bytes File) (name : Bytes) (stamp : Stamp) :
    (∃ attempt ≥ 1, conflictName tree name stamp = conflictCandidate name stamp attempt) ∧
      tree.file? (conflictName tree name stamp) = none := by
  have found := Option.some_get (exists_conflict_free tree name stamp)
  have mem := List.mem_of_find?_eq_some found.symm
  obtain ⟨i, -, eq⟩ := List.mem_map.mp mem
  have free : decide (tree.file? (conflictName tree name stamp) = none) = true :=
    List.find?_some (p := fun c => decide (tree.file? c = none)) found.symm
  exact ⟨⟨i + 1, Nat.le_add_left 1 i, eq.symm⟩, of_decide_eq_true free⟩

/-! ## Local files -/

namespace SyncDir

/-- The content at a path. -/
def content? (d : SyncDir) (path : Bytes) : Option Bytes := (d.tree.file? path).map File.content

/-- `fill_hash` on what `stat` says of a file: the saved hash is reused when size
and modification time are the saved ones. -/
def fillHash (d : SyncDir) (name : Bytes) (file : File) : FileInfo :=
  match d.base[name]? with
  | some base =>
    if base.size = (file.info name).size ∧ base.mtimeNs = file.mtime then
      { file.info name with hash := base.hash }
    else file.info name
  | none => file.info name

/-- `local_file`. -/
def localFile (d : SyncDir) (name : Bytes) : Option FileInfo :=
  (d.tree.file? name).map (d.fillHash name)

/-- The local file has changes that were never synced: it differs from the
incoming version and from the base. -/
def unsynced (d : SyncDir) (name : Bytes) (incoming : FileInfo) : Bool :=
  match d.localFile name with
  | some current =>
    !sameContent current incoming && !d.base[name]?.any fun base => sameContent base current
  | none => false

/-- The local file moved to its conflicted-copy name. -/
def keepCopy (d : SyncDir) (name : Bytes) (stamp : Stamp) : SyncDir :=
  match d.tree.rename name (conflictName d.tree name stamp) with
  | some tree => { d with tree }
  | none => d

/-- The received file recorded and moved to its place; the record is taken back
when it cannot be stored there. -/
def moveIn (d : SyncDir) (name : Bytes) (temp : File) : SyncDir where
  tree := (d.tree.put name temp).1
  base :=
    if (d.tree.put name temp).2 then d.base.insert name (temp.info name) else d.base.erase name

/-- What `install` does before it moves the received file in: an unsynced local
version is kept as a conflicted copy. -/
def makeWay (d : SyncDir) (name : Bytes) (temp : File) (stamp : Stamp) : SyncDir :=
  if d.unsynced name (temp.info name) then d.keepCopy name stamp else d

/-- `install` of a received file; `stamp` is the time `conflict_name` reads. -/
def install (d : SyncDir) (name : Bytes) (temp : File) (stamp : Stamp) : SyncDir :=
  (d.makeWay name temp stamp).moveIn name temp

/-- The received file can be stored there. -/
def installable (d : SyncDir) (name : Bytes) (temp : File) (stamp : Stamp) : Bool :=
  ((d.makeWay name temp stamp).tree.put name temp).2

/-- Every saved hash is the hash of the file that has the saved size and time. -/
def HashSaved (d : SyncDir) (name : Bytes) : Prop :=
  ∀ f base, d.tree.file? name = some f → d.base[name]? = some base →
    base.size = (f.info name).size → base.mtimeNs = f.mtime → base.hash = fnv1a f.content

instance (d : SyncDir) (name : Bytes) : Decidable (d.HashSaved name) :=
  decidable_of_iff (∀ f ∈ d.tree.file? name, ∀ base ∈ d.base[name]?,
      base.size = (f.info name).size → base.mtimeNs = f.mtime → base.hash = fnv1a f.content)
    ⟨fun all f base file entry => all f file base entry,
      fun all f file base entry => all f base file entry⟩

variable {d : SyncDir} {name q : Bytes} {f temp : File} {stamp : Stamp}

theorem fillHash_eq (saved : d.HashSaved name) (present : d.tree.file? name = some f) :
    d.fillHash name f = f.info name := by
  unfold fillHash
  split
  · rename_i base entry
    split
    · rename_i both
      rw [saved f base present entry both.1 both.2]
      rfl
    · rfl
  · rfl

theorem fillHash_congr {d' : SyncDir} (same : d.base[name]? = d'.base[name]?) (f : File) :
    d.fillHash name f = d'.fillHash name f := by
  rw [fillHash, same, fillHash]

theorem fillHash_of_unsaved (unsaved : d.base[name]? = none) (f : File) :
    d.fillHash name f = f.info name := by
  rw [fillHash, unsaved]

/-- A file that compares different from its base was hashed. -/
theorem fillHash_of_changed
    (changed : (d.base[name]?.any fun b => sameContent b (d.fillHash name f)) = false) :
    d.fillHash name f = f.info name := by
  unfold fillHash at changed ⊢
  cases entry : d.base[name]? with
  | none => rfl
  | some b =>
    simp only [entry, Option.any_some] at changed ⊢
    split
    · rename_i both
      rw [if_pos both, ← Bool.not_eq_true, sameContent_iff] at changed
      exact absurd ⟨rfl, both.1⟩ changed
    · rfl

@[simp] theorem base_keepCopy : (d.keepCopy name stamp).base = d.base := by
  unfold keepCopy
  split <;> rfl

/-- Keeping a copy moves one file to a name that was free, and touches no other. -/
theorem file?_keepCopy_of_ne (other : q ≠ name) :
    (d.keepCopy name stamp).tree.file? q = d.tree.file? q ∨
      d.tree.file? q = none ∧ q = conflictName d.tree name stamp := by
  unfold keepCopy
  cases moved : d.tree.rename name (conflictName d.tree name stamp) with
  | none => exact .inl rfl
  | some tree =>
    obtain ⟨f, file⟩ := FileTree.file_of_rename moved
    by_cases copy : q = conflictName d.tree name stamp
    · exact .inr ⟨copy ▸ (conflictName_spec d.tree name stamp).2, copy⟩
    · have files := FileTree.file?_rename file moved q
      rw [if_neg copy, if_neg other] at files
      exact .inl files

theorem node_keepCopy (d : SyncDir) (name : Bytes) (stamp : Stamp) (q : Bytes) :
    (d.keepCopy name stamp).tree.node q = d.tree.node q ∨
      (d.keepCopy name stamp).tree.node q = none ∨
      ∃ f, (d.keepCopy name stamp).tree.node q = some (.file f) := by
  unfold keepCopy
  cases moved : d.tree.rename name (conflictName d.tree name stamp) with
  | none => exact .inl rfl
  | some tree =>
    obtain ⟨f, file⟩ := FileTree.file_of_rename moved
    have nodes := FileTree.node_rename (r := q) file moved
    dsimp only
    split at nodes
    · exact .inr (.inr ⟨f, nodes⟩)
    · split at nodes
      · exact .inr (.inl nodes)
      · exact .inl nodes

/-- The copy is there, when nothing but a file can be in its place. -/
theorem file?_keepCopy (valid : isValidPath name = true) (present : d.tree.file? name = some f)
    (vacant : d.tree.node (conflictName d.tree name stamp) ≠ some .dir) :
    (d.keepCopy name stamp).tree.file? (conflictName d.tree name stamp) = some f := by
  obtain ⟨⟨attempt, -, eq⟩, -⟩ := conflictName_spec d.tree name stamp
  have siblings : Hierarchy.ancestors (conflictName d.tree name stamp) =
      Hierarchy.ancestors name := by
    rw [eq]
    exact dirs_conflictCandidate valid stamp attempt
  obtain ⟨tree, moved⟩ := FileTree.rename_sibling present siblings vacant
  have files := FileTree.file?_rename present moved (conflictName d.tree name stamp)
  rw [if_pos rfl] at files
  simp only [keepCopy, moved]
  exact files

theorem conflictName_ne (present : d.tree.file? name = some f) :
    conflictName d.tree name stamp ≠ name := by
  intro same
  have free := (conflictName_spec d.tree name stamp).2
  rw [same, present] at free
  cases free

theorem tree_install : (d.install name temp stamp).tree =
    ((d.makeWay name temp stamp).tree.put name temp).1 := rfl

@[simp] theorem base_makeWay : (d.makeWay name temp stamp).base = d.base := by
  unfold makeWay
  split
  · exact base_keepCopy
  · rfl

/-- `install` replaces one file, moves one to a free name, and touches no other. -/
theorem file?_install_of_ne (other : q ≠ name) :
    (d.install name temp stamp).tree.file? q = d.tree.file? q ∨
      d.tree.file? q = none ∧ q = conflictName d.tree name stamp ∧
        d.unsynced name (temp.info name) = true := by
  rw [tree_install, FileTree.file?_put_of_ne _ _ other]
  unfold makeWay
  split
  · rename_i changed
    exact (file?_keepCopy_of_ne other).imp_right fun free => ⟨free.1, free.2, changed⟩
  · exact .inl rfl

/-- The files after `install` are those before it and the received one. -/
theorem exists_of_file?_install (present : (d.install name temp stamp).tree.file? q = some f) :
    f = temp ∨ ∃ r, d.tree.file? r = some f := by
  have way : ∀ r g, (d.makeWay name temp stamp).tree.file? r = some g →
      ∃ r', d.tree.file? r' = some g := by
    intro r g held
    unfold makeWay keepCopy at held
    split at held
    · cases moved : d.tree.rename name (conflictName d.tree name stamp) with
      | none =>
        rw [moved] at held
        exact ⟨r, held⟩
      | some tree =>
        obtain ⟨f, file⟩ := FileTree.file_of_rename moved
        rw [moved] at held
        dsimp only at held
        rw [FileTree.file?_rename file moved] at held
        split at held
        · cases held
          exact ⟨name, file⟩
        · split at held
          · cases held
          · exact ⟨r, held⟩
    · exact ⟨r, held⟩
  rw [tree_install] at present
  cases ok : ((d.makeWay name temp stamp).tree.put name temp).2 with
  | true =>
    rw [FileTree.file?_put ok] at present
    split at present
    · exact .inl (Option.some.inj present).symm
    · exact .inr (way q f present)
  | false =>
    rw [FileTree.put_of_fail ok] at present
    exact .inr (way q f present)

theorem base_moveIn_of_ne (other : q ≠ name) : (d.moveIn name temp).base[q]? = d.base[q]? := by
  unfold moveIn
  cases (d.tree.put name temp).2 with
  | true => rw [if_pos rfl, Map.getElem?_insert, if_neg other]
  | false => rw [if_neg Bool.false_ne_true, Map.getElem?_erase, if_neg other]

theorem base_install_of_ne (other : q ≠ name) :
    (d.install name temp stamp).base[q]? = d.base[q]? := by
  rw [install, base_moveIn_of_ne other, base_makeWay]

/-- What `install` leaves at the path, when it can store the file. -/
theorem install_stores (ok : d.installable name temp stamp = true) :
    (d.install name temp stamp).tree.file? name = some temp ∧
      (d.install name temp stamp).base[name]? = some (temp.info name) := by
  constructor
  · rw [tree_install, FileTree.file?_put ok, if_pos rfl]
  · rw [install, moveIn,
      if_pos (show ((d.makeWay name temp stamp).tree.put name temp).2 = true from ok),
      Map.getElem?_insert, if_pos rfl]

/-- A received file can be stored where a file is. -/
theorem installable_of_present (temp : File) (stamp : Stamp)
    (present : d.tree.file? name = some f) :
    d.installable name temp stamp = true := by
  have node := FileTree.file?_eq_some_iff.mp present
  have above : ∀ q ∈ Hierarchy.ancestors name, d.tree.node q = some .dir := fun q mem =>
    FileTree.node_of_mem_ancestors (by rw [node]; nofun) mem
  have free : (d.makeWay name temp stamp).tree.Free name := by
    unfold makeWay keepCopy
    split
    · cases moved : d.tree.rename name (conflictName d.tree name stamp) with
      | none => exact FileTree.free_of_file present
      | some tree =>
        have nodes := fun r => FileTree.node_rename (r := r) present moved
        constructor
        · intro q mem
          rw [nodes]
          split
          · -- a file cannot be put where the directory is
            rename_i copy
            have vacant : d.tree.isDir (conflictName d.tree name stamp) = false := by
              unfold FileTree.rename at moved
              rw [present] at moved
              dsimp only at moved
              split at moved
              · rename_i both
                rw [Bool.and_eq_true, Bool.not_eq_true'] at both
                exact both.2
              · cases moved
            rw [FileTree.isDir_eq_false_iff, ← copy] at vacant
            exact absurd (above q mem) vacant
          · rw [if_neg (Hierarchy.ne_of_mem mem)]
            exact .inr (above q mem)
        · dsimp only
          rw [nodes]
          split
          · nofun
          · rw [if_pos rfl]
            nofun
    · exact FileTree.free_of_file present
  exact FileTree.put_ok_iff.mpr free

/-- The directories `install` creates lead to the path. -/
theorem node_install (d : SyncDir) (name : Bytes) (stamp : Stamp) (q : Bytes) :
    (d.install name temp stamp).tree.node q = d.tree.node q ∨
      (d.install name temp stamp).tree.node q = none ∨
      (∃ f, (d.install name temp stamp).tree.node q = some (.file f)) ∨ q ∈ dirs name := by
  rw [tree_install]
  rcases FileTree.node_put (d.makeWay name temp stamp).tree name temp q with
    same | ⟨-, file⟩ | ⟨above, -⟩
  · rw [same]
    unfold makeWay
    split
    · rcases node_keepCopy d name stamp q with same | gone | file
      · exact .inl same
      · exact .inr (.inl gone)
      · exact .inr (.inr (.inl file))
    · exact .inl rfl
  · exact .inr (.inr (.inl ⟨_, file⟩))
  · exact .inr (.inr (.inr above))

/-- An unsynced file is still there after `install`, as a conflicted copy. -/
theorem install_keeps (valid : isValidPath name = true) (present : d.tree.file? name = some f)
    (changed : d.unsynced name (temp.info name) = true)
    (vacant : d.tree.node (conflictName d.tree name stamp) ≠ some .dir) :
    (d.install name temp stamp).tree.file? (conflictName d.tree name stamp) = some f := by
  rw [tree_install, FileTree.file?_put_of_ne _ _ (conflictName_ne present), makeWay, if_pos changed]
  exact file?_keepCopy valid present vacant

/-- A file that is not kept is replaced, or stays when nothing can be stored. -/
theorem install_replaces (stamp : Stamp) (synced : d.unsynced name (temp.info name) = false) :
    (d.install name temp stamp).tree.file? name = some temp ∨
      (d.install name temp stamp).tree.file? name = d.tree.file? name := by
  rw [tree_install, makeWay, synced]
  simp only [Bool.false_eq_true, if_false]
  cases ok : (d.tree.put name temp).2 with
  | true =>
    rw [FileTree.file?_put ok, if_pos rfl]
    exact .inl rfl
  | false =>
    rw [FileTree.put_of_fail ok]
    exact .inr rfl

end SyncDir

end SisOp
