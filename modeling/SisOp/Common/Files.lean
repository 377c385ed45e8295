import SisOp.Common.Protocol
import SisOp.Lib.FileTree
import Mathlib.Order.Defs.LinearOrder

/-!
# Files, paths and transfers

`common/files.cpp`: which names are synced, what is known of a file, and how a
file travels. Paths are byte strings; the directories leading to one are its
prefixes before each `/`, which makes them a `Hierarchy`. Contents are byte
strings of less than `2 ^ 63` bytes, what `off_t` can count.
-/

namespace SisOp

open Lib

def RESERVED_PREFIX : Bytes := bytes ".sisop"
def MAX_NAME_LENGTH : Nat := 255
def MAX_PATH_LENGTH : Nat := 1024
def MAX_PATH_DEPTH : Nat := 32
def MAX_USERNAME_LENGTH : Nat := 32

/-- `'/'`. -/
abbrev slash : UInt8 := 0x2F

/-! ## Names -/

def isValidFileName (name : Bytes) : Bool :=
  if name.isEmpty || decide (name.length > MAX_NAME_LENGTH) || name == bytes "." ||
      name == bytes ".." then false
  else if name.take RESERVED_PREFIX.length == RESERVED_PREFIX then false
  else name.all fun c => !(c == slash || decide (c < 0x20) || c == 0x7F)

/-- Valid names joined by single `/`. -/
def isValidPath (path : Bytes) : Bool :=
  if path.isEmpty || decide (path.length > MAX_PATH_LENGTH) then false
  else
    let components := path.splitOn slash
    components.all isValidFileName && decide (components.length ≤ MAX_PATH_DEPTH)

def isValidUsername (name : Bytes) : Bool :=
  if name.isEmpty || decide (name.length > MAX_USERNAME_LENGTH) then false
  else name.all fun c =>
    (decide (0x61 ≤ c) && decide (c ≤ 0x7A)) || (decide (0x41 ≤ c) && decide (c ≤ 0x5A)) ||
      (decide (0x30 ≤ c) && decide (c ≤ 0x39)) || c == 0x5F || c == 0x2D

theorem length_le_of_isValidUsername {name : Bytes} (valid : isValidUsername name = true) :
    name.length ≤ MAX_USERNAME_LENGTH := by
  unfold isValidUsername at valid
  split at valid
  · cases valid
  · rename_i short
    simp only [Bool.or_eq_true, decide_eq_true_eq, not_or] at short
    exact Nat.not_lt.mp short.2

/-! ## The directories leading to a path -/

/-- The prefixes of `path` before each `/`, outermost first. -/
def dirs (path : Bytes) : List Bytes :=
  ((List.range path.length).filter fun i => path[i]? = some slash).map path.take

/-- A prefix before a `/` has the `/` positions of the path that lie within it. -/
private theorem dirs_take (path : Bytes) {n : Nat} (within : n ≤ path.length) :
    dirs (path.take n) =
      ((List.range n).filter fun i => path[i]? = some slash).map path.take := by
  rw [dirs, List.length_take, Nat.min_eq_left within]
  have sameSlash : ∀ i ∈ List.range n,
      decide ((path.take n)[i]? = some slash) = decide (path[i]? = some slash) := by
    intro i mem
    rw [List.getElem?_take_of_lt (List.mem_range.mp mem)]
  rw [List.filter_congr sameSlash]
  refine List.map_congr_left fun i mem => ?_
  have below := List.mem_range.mp (List.mem_of_mem_filter mem)
  rw [List.take_take, Nat.min_eq_left (Nat.le_of_lt below)]

/-- The first `i` of the filtered range are those below the `i`-th. -/
private theorem take_filter_range (p : Nat → Bool) (n : Nat) :
    ∀ i (h : i < ((List.range n).filter p).length),
      ((List.range n).filter p).take i =
        (List.range (((List.range n).filter p)[i])).filter p := by
  induction n with
  | zero => intro i h; simp at h
  | succ n ih =>
    intro i h
    have split : (List.range (n + 1)).filter p =
        (List.range n).filter p ++ (if p n then [n] else []) := by
      rw [List.range_succ, List.filter_append]
      by_cases here : p n <;> simp [here]
    by_cases earlier : i < ((List.range n).filter p).length
    · simp only [split, List.getElem_append_left earlier]
      rw [List.take_append_of_le_length (Nat.le_of_lt earlier), ih i earlier]
    · have here : p n = true := by
        by_contra absent
        rw [split, if_neg absent, List.append_nil] at h
        exact earlier h
      have last : i = ((List.range n).filter p).length := by
        rw [split, if_pos here, List.length_append, List.length_singleton] at h
        omega
      subst last
      simp only [split, here, if_true, List.take_left, List.getElem_concat_length]

instance : Hierarchy Bytes where
  ancestors := dirs
  ancestors_getElem path i h := by
    have hRange : i < ((List.range path.length).filter
        fun i => decide (path[i]? = some slash)).length := by
      rwa [dirs, List.length_map] at h
    have bound : ((List.range path.length).filter
        fun i => decide (path[i]? = some slash))[i] < path.length :=
      List.mem_range.mp (List.mem_of_mem_filter (List.getElem_mem hRange))
    have entry : (dirs path)[i] = path.take ((List.range path.length).filter
        fun i => decide (path[i]? = some slash))[i] := List.getElem_map ..
    rw [entry, dirs_take path (Nat.le_of_lt bound), ← take_filter_range _ _ i hRange, List.map_take,
      dirs]

theorem ancestors_eq_dirs (path : Bytes) : Hierarchy.ancestors path = dirs path := rfl

/-- `d` leads to `p` exactly when `p` continues it with a `/`. -/
theorem mem_dirs_iff {d p : Bytes} : d ∈ dirs p ↔ ∃ rest, p = d ++ slash :: rest := by
  simp only [dirs, List.mem_map, List.mem_filter, List.mem_range, decide_eq_true_eq]
  constructor
  · rintro ⟨i, ⟨bound, here⟩, rfl⟩
    refine ⟨p.drop (i + 1), ?_⟩
    have at_i : p[i] = slash := by
      rw [List.getElem?_eq_getElem bound] at here
      exact Option.some.inj here
    rw [← at_i, ← List.drop_eq_getElem_cons bound, List.take_append_drop]
  · rintro ⟨rest, rfl⟩
    refine ⟨d.length, ⟨?_, ?_⟩, List.take_left⟩
    · rw [List.length_append, List.length_cons]
      omega
    · rw [List.getElem?_append_right (Nat.le_refl _), Nat.sub_self, List.getElem?_cons_zero]

/-- `parent_path`: empty for a top-level name. -/
def parentPath (path : Bytes) : Bytes := (dirs path).getLast?.getD []

/-- `base_name`: what follows the last `/`. -/
def baseName (path : Bytes) : Bytes :=
  match (dirs path).getLast? with
  | none => path
  | some dir => path.drop (dir.length + 1)

/-- A name without `/` lies in no directory. -/
theorem dirs_eq_nil {name : Bytes} (plain : slash ∉ name) : dirs name = [] := by
  rw [List.eq_nil_iff_forall_not_mem]
  intro d mem
  obtain ⟨rest, rfl⟩ := mem_dirs_iff.mp mem
  exact plain (List.mem_append_right _ List.mem_cons_self)

/-- The directories of a name in a directory are those of the directory, and
the directory itself. -/
theorem dirs_append {dir name : Bytes} (plain : slash ∉ name) :
    dirs (dir ++ slash :: name) = dirs dir ++ [dir] := by
  have before : dir.length < (dir ++ slash :: name).length := by
    rw [List.length_append, List.length_cons]
    omega
  have tail : (List.range ((dir ++ slash :: name).length)).filter
      (fun i => (dir ++ slash :: name)[i]? = some slash) =
      (List.range (dir.length + 1)).filter fun i => (dir ++ slash :: name)[i]? = some slash := by
    have split : (dir ++ slash :: name).length = (dir.length + 1) + name.length := by
      rw [List.length_append, List.length_cons]
      omega
    rw [split, List.range_add, List.filter_append]
    refine List.append_right_eq_self.mpr (List.filter_eq_nil_iff.mpr ?_)
    intro i mem
    obtain ⟨j, bound, rfl⟩ := List.mem_map.mp mem
    rw [decide_eq_true_eq, List.getElem?_append_right (by omega),
      show dir.length + 1 + j - dir.length = j + 1 by omega, List.getElem?_cons_succ,
      List.getElem?_eq_getElem (List.mem_range.mp bound)]
    intro here
    exact plain (Option.some.inj here ▸ List.getElem_mem _)
  have front := dirs_take (dir ++ slash :: name) (Nat.le_of_lt before)
  rw [List.take_left] at front
  rw [dirs, tail, List.range_succ, List.filter_append, List.map_append, ← front]
  have here : (dir ++ slash :: name)[dir.length]? = some slash := by
    rw [List.getElem?_append_right (Nat.le_refl _), Nat.sub_self, List.getElem?_cons_zero]
  rw [List.filter_singleton, here, decide_eq_true rfl, cond_true, List.map_singleton,
    List.take_left]

/-- A path is a plain name, or a plain name in a directory. -/
theorem path_cases (path : Bytes) :
    slash ∉ path ∨ ∃ dir name, path = dir ++ slash :: name ∧ slash ∉ name := by
  by_cases slashed : slash ∈ path
  · obtain ⟨name, dir, eq, plain⟩ := List.eq_append_cons_of_mem (List.mem_reverse.mpr slashed)
    refine .inr ⟨dir.reverse, name.reverse, ?_, fun mem => plain (List.mem_reverse.mp mem)⟩
    rw [← List.reverse_reverse path, eq, List.reverse_append, List.reverse_cons, List.append_assoc,
      List.singleton_append]
  · exact .inl slashed

/-- Induction over the directories on the way to a path. -/
@[elab_as_elim]
theorem path_induction {motive : Bytes → Prop} (top : ∀ name, slash ∉ name → motive name)
    (below : ∀ dir name, slash ∉ name → motive dir → motive (dir ++ slash :: name))
    (path : Bytes) : motive path := by
  rcases path_cases path with plain | ⟨dir, name, eq, plain⟩
  · exact top path plain
  · rw [eq]
    exact below dir name plain (path_induction top below dir)
termination_by path.length
decreasing_by
  rw [eq, List.length_append, List.length_cons]
  omega

theorem parentPath_plain {name : Bytes} (plain : slash ∉ name) : parentPath name = [] := by
  rw [parentPath, dirs_eq_nil plain]
  rfl

theorem baseName_plain {name : Bytes} (plain : slash ∉ name) : baseName name = name := by
  simp only [baseName, dirs_eq_nil plain, List.getLast?_nil]

section Below

variable {dir name : Bytes} (plain : slash ∉ name)
include plain

private theorem getLast?_dirs_append : (dirs (dir ++ slash :: name)).getLast? = some dir := by
  rw [dirs_append plain, List.getLast?_concat]

theorem parentPath_append : parentPath (dir ++ slash :: name) = dir := by
  rw [parentPath, getLast?_dirs_append plain, Option.getD_some]

theorem baseName_append : baseName (dir ++ slash :: name) = name := by
  simp only [baseName, getLast?_dirs_append plain]
  rw [← List.singleton_append, ← List.append_assoc]
  exact List.drop_left' (by rw [List.length_append, List.length_singleton])

end Below

theorem slash_not_mem_baseName (path : Bytes) : slash ∉ baseName path := by
  rcases path_cases path with plain | ⟨dir, name, rfl, plain⟩
  · rwa [baseName_plain plain]
  · rwa [baseName_append plain]

/-- The components are the last names of the path and of its directories. -/
theorem splitOn_slash (path : Bytes) : path.splitOn slash = (dirs path ++ [path]).map baseName := by
  induction path using path_induction with
  | top name plain =>
    rw [List.splitOn_eq_singleton plain, dirs_eq_nil plain, List.nil_append, List.map_singleton,
      baseName_plain plain]
  | below dir name plain ih =>
    rw [List.splitOn_append_cons_self, ih, List.splitOn_eq_singleton plain, dirs_append plain,
      List.map_append, List.map_append, List.map_append, List.map_singleton, List.map_singleton,
      baseName_append plain]

/-! ## Joining paths -/

def joinPath (dir name : Bytes) : Bytes :=
  if dir.isEmpty || dir.getLast? == some slash then dir ++ name else dir ++ slash :: name

/-- A `/` is put between the two when neither side of it has one. -/
theorem joinPath_cases (dir name : Bytes) :
    dir = [] ∧ joinPath dir name = name ∨
      (∃ d, dir = d ++ [slash] ∧ joinPath dir name = d ++ slash :: name) ∨
        dir ≠ [] ∧ joinPath dir name = dir ++ slash :: name := by
  unfold joinPath
  split
  · rename_i ended
    rw [Bool.or_eq_true, List.isEmpty_iff, beq_iff_eq] at ended
    rcases ended with rfl | last
    · exact .inl ⟨rfl, rfl⟩
    · obtain ⟨d, rfl⟩ := List.getLast?_eq_some_iff.mp last
      exact .inr (.inl ⟨d, rfl, by rw [List.append_assoc, List.singleton_append]⟩)
  · rename_i ended
    rw [Bool.or_eq_true, not_or, List.isEmpty_iff] at ended
    exact .inr (.inr ⟨ended.1, rfl⟩)

theorem joinPath_of_plain {dir name : Bytes} (filled : name ≠ []) (plain : slash ∉ name)
    (more : Bytes) :
    joinPath (dir ++ name) more = dir ++ name ++ slash :: more := by
  have last : (dir ++ name).getLast? ≠ some slash := by
    rw [List.getLast?_append_of_ne_nil _ filled]
    exact fun last => plain (List.mem_of_getLast? last)
  have nonempty : (dir ++ name).isEmpty = false := by
    rw [List.isEmpty_eq_false_iff]
    exact List.append_ne_nil_of_right_ne_nil _ filled
  rw [joinPath, if_neg]
  rw [nonempty, Bool.false_or, beq_iff_eq]
  exact last

/-! ## Valid paths -/

theorem isValidFileName_iff {name : Bytes} : isValidFileName name = true ↔
    name ≠ [] ∧ name.length ≤ MAX_NAME_LENGTH ∧ name ≠ bytes "." ∧ name ≠ bytes ".." ∧
      name.take RESERVED_PREFIX.length ≠ RESERVED_PREFIX ∧
        ∀ c ∈ name, c ≠ slash ∧ ¬c < 0x20 ∧ c ≠ 0x7F := by
  unfold isValidFileName
  split
  · rename_i refused
    refine iff_of_false Bool.false_ne_true ?_
    rintro ⟨filled, short, dot, dots, -⟩
    simp only [Bool.or_eq_true, List.isEmpty_iff, decide_eq_true_eq, beq_iff_eq] at refused
    rcases refused with ((refused | refused) | refused) | refused
    · exact filled refused
    · exact Nat.not_le_of_gt refused short
    · exact dot refused
    · exact dots refused
  · rename_i fits
    simp only [Bool.or_eq_true, List.isEmpty_iff, decide_eq_true_eq, beq_iff_eq, not_or,
      Nat.not_lt] at fits
    obtain ⟨⟨⟨filled, short⟩, dot⟩, dots⟩ := fits
    rw [and_iff_right filled, and_iff_right short, and_iff_right dot, and_iff_right dots]
    split
    · rename_i reserved
      exact iff_of_false Bool.false_ne_true fun both => both.1 (beq_iff_eq.mp reserved)
    · rename_i free
      rw [beq_iff_eq] at free
      rw [and_iff_right free, List.all_eq_true]
      refine forall₂_congr fun c _ => ?_
      simp only [Bool.not_eq_true', Bool.or_eq_false_iff, beq_eq_false_iff_ne,
        decide_eq_false_iff_not, and_assoc]

section ValidPath

variable {path : Bytes}

theorem isValidPath_iff : isValidPath path = true ↔ path.length ≤ MAX_PATH_LENGTH ∧
    (∀ p ∈ dirs path ++ [path], isValidFileName (baseName p) = true) ∧
      (dirs path).length < MAX_PATH_DEPTH := by
  have components : (path.splitOn slash).all isValidFileName = true ∧
        decide ((path.splitOn slash).length ≤ MAX_PATH_DEPTH) = true ↔
      (∀ p ∈ dirs path ++ [path], isValidFileName (baseName p) = true) ∧
        (dirs path).length < MAX_PATH_DEPTH := by
    rw [splitOn_slash, List.all_map, List.all_eq_true, decide_eq_true_eq, List.length_map,
      List.length_append, List.length_singleton]
    rfl
  unfold isValidPath
  split
  · rename_i refused
    refine iff_of_false Bool.false_ne_true ?_
    rintro ⟨short, names, -⟩
    rw [Bool.or_eq_true, List.isEmpty_iff, decide_eq_true_eq] at refused
    rcases refused with rfl | long
    · cases names [] (List.mem_append_right _ (List.mem_singleton_self _))
    · exact Nat.not_le_of_gt long short
  · rename_i fits
    rw [Bool.or_eq_true, not_or, decide_eq_true_eq, Nat.not_lt] at fits
    rw [Bool.and_eq_true, components, and_iff_right fits.2]

theorem length_le_of_isValidPath (valid : isValidPath path = true) :
    path.length ≤ MAX_PATH_LENGTH :=
  (isValidPath_iff.mp valid).1

theorem components_of_isValidPath (valid : isValidPath path = true) :
    (∀ p ∈ dirs path ++ [path], isValidFileName (baseName p) = true) ∧
      (dirs path).length < MAX_PATH_DEPTH :=
  (isValidPath_iff.mp valid).2

/-- A valid path does not start with `/`. -/
theorem dir_ne_nil {dir name : Bytes} (valid : isValidPath (dir ++ slash :: name) = true)
    (plain : slash ∉ name) : dir ≠ [] := by
  have above : isValidFileName (baseName dir) = true := by
    refine (components_of_isValidPath valid).1 dir (List.mem_append_left _ ?_)
    rw [dirs_append plain]
    exact List.mem_append_right _ (List.mem_singleton_self dir)
  rintro rfl
  cases above

theorem printable_of_names (path : Bytes)
    (names : ∀ p ∈ dirs path ++ [path], isValidFileName (baseName p) = true) :
    ∀ c ∈ path, ¬c < 0x20 := by
  induction path using path_induction with
  | top name plain =>
    have base := names name (List.mem_append_right _ (List.mem_singleton_self _))
    rw [baseName_plain plain] at base
    exact fun c mem => ((isValidFileName_iff.mp base).2.2.2.2.2 c mem).2.1
  | below dir name plain ih =>
    have base := names _ (List.mem_append_right _ (List.mem_singleton_self _))
    rw [baseName_append plain] at base
    rw [dirs_append plain] at names
    intro c mem
    rcases List.mem_append.mp mem with above | here
    · exact ih (fun p inside => names p (List.mem_append_left _ inside)) c above
    · rcases List.mem_cons.mp here with rfl | here
      · decide
      · exact ((isValidFileName_iff.mp base).2.2.2.2.2 c here).2.1

/-- No character of a valid path is a control character. -/
theorem printable_of_isValidPath (valid : isValidPath path = true) : ∀ c ∈ path, ¬c < 0x20 :=
  printable_of_names path (components_of_isValidPath valid).1

end ValidPath

/-! ## What is known of a file -/

/-- `Fnv1a` over the whole contents. -/
def fnv1a (content : Bytes) : UInt64 :=
  content.foldl (fun hash c => (hash ^^^ c.toUInt64) * 1099511628211) 1469598103934665603

/-- A regular file. -/
structure File where
  content : Bytes
  mtime : Int64
  small : content.length < 2 ^ 63
  deriving DecidableEq, Repr

/-- A file of one byte. -/
def File.single (byte : UInt8) (mtime : Int64) : File :=
  ⟨[byte], mtime, Nat.one_lt_two_pow (by decide)⟩

structure FileInfo where
  name : Bytes
  size : UInt64
  mtimeNs : Int64
  hash : UInt64
  deriving DecidableEq, Repr

/-- `stat_file` with its hash. -/
def File.info (file : File) (name : Bytes) : FileInfo :=
  ⟨name, file.content.length.toUInt64, file.mtime, fnv1a file.content⟩

theorem File.ext {f g : File} (content : f.content = g.content) (mtime : f.mtime = g.mtime) :
    f = g := by
  cases f
  cases g
  cases content
  cases mtime
  rfl

theorem File.toNat_size (file : File) :
    (file.content.length.toUInt64).toNat = file.content.length := by
  rw [Nat.toUInt64, UInt64.toNat_ofNat']
  exact Nat.mod_eq_of_lt (Nat.lt_trans file.small (by decide))

def writeFileHeader (info : FileInfo) : Option Bytes := do
  let name ← Writer.str info.name
  pure (name ++ Writer.u64 info.size ++ Writer.i64 info.mtimeNs)

def readFileHeader : Reader FileInfo := do
  let name ← Reader.str
  let size ← Reader.u64
  let mtimeNs ← Reader.i64
  pure ⟨name, size, mtimeNs, 0⟩

def writeFileInfo (info : FileInfo) : Option Bytes := do
  let header ← writeFileHeader info
  pure (header ++ Writer.u64 info.hash)

def readFileInfo : Reader FileInfo := do
  let info ← readFileHeader
  let hash ← Reader.u64
  pure { info with hash }

theorem parses_fileHeader {info : FileInfo} {enc : Bytes}
    (written : writeFileHeader info = some enc) :
    Parses readFileHeader enc { info with hash := 0 } := by
  unfold writeFileHeader at written
  obtain ⟨name, nameWritten, last⟩ := Option.bind_eq_some_iff.mp written
  cases last
  rw [List.append_assoc]
  exact (parses_str nameWritten).bind ((parses_u64 info.size).bind
    ((parses_i64 info.mtimeNs).bind_pure (f := fun m => FileInfo.mk info.name info.size m 0)))

theorem parses_fileInfo {info : FileInfo} {enc : Bytes}
    (written : writeFileInfo info = some enc) : Parses readFileInfo enc info := by
  unfold writeFileInfo at written
  obtain ⟨header, headerWritten, last⟩ := Option.bind_eq_some_iff.mp written
  cases last
  exact (parses_fileHeader headerWritten).bind
    ((parses_u64 info.hash).bind_pure
      (f := fun h => FileInfo.mk info.name info.size info.mtimeNs h))

theorem length_fileHeader {info : FileInfo} {enc : Bytes}
    (written : writeFileHeader info = some enc) : enc.length = info.name.length + 18 := by
  unfold writeFileHeader at written
  obtain ⟨nameField, nameWritten, last⟩ := Option.bind_eq_some_iff.mp written
  cases last
  rw [List.length_append, List.length_append, length_str nameWritten]
  have eight : (Writer.u64 info.size).length = 8 ∧ (Writer.i64 info.mtimeNs).length = 8 :=
    ⟨rfl, rfl⟩
  omega

theorem length_fileHeader_le {info : FileInfo} {enc : Bytes}
    (written : writeFileHeader info = some enc) : enc.length ≤ 0xFFFF + 18 := by
  obtain ⟨name, nameWritten, -⟩ := Option.bind_eq_some_iff.mp written
  have short := (str_eq_some_iff.mp nameWritten).1
  rw [length_fileHeader written]
  omega

theorem steady_fileHeader : Steady readFileHeader :=
  steady_str.bind fun _ => steady_u64.bind fun _ => steady_i64.bind fun _ => Steady.pure _

theorem steady_fileInfo : Steady readFileInfo :=
  steady_fileHeader.bind fun _ => steady_u64.bind fun _ => Steady.pure _

theorem writeFileHeader_isSome (info : FileInfo) (short : info.name.length ≤ 0xFFFF) :
    ∃ enc, writeFileHeader info = some enc := by
  have written : Writer.str info.name = some _ := str_eq_some_iff.mpr ⟨short, rfl⟩
  exact ⟨_, by rw [writeFileHeader, written]; rfl⟩

theorem writeFileInfo_isSome (info : FileInfo) (short : info.name.length ≤ 0xFFFF) :
    ∃ enc, writeFileInfo info = some enc := by
  obtain ⟨enc, written⟩ := writeFileHeader_isSome info short
  exact ⟨_, by rw [writeFileInfo, written]; rfl⟩

/-! ## File bodies -/

inductive TransferResult where
  | ok | notSent | fileError | connectionLost
  deriving DecidableEq, Repr

private def chunksUpTo : Nat → Bytes → List Bytes
  | 0, _ => []
  | n + 1, content =>
    if content.isEmpty then []
    else content.take FILE_CHUNK_SIZE :: chunksUpTo n (content.drop FILE_CHUNK_SIZE)

/-- The pieces `send_file` reads the contents in. -/
def chunks (content : Bytes) : List Bytes := chunksUpTo content.length content

/-- The frames `send_file` sends after the header when every read succeeds. -/
def bodyFrames (content : Bytes) : List Message :=
  (chunks content).map (Message.mk .fileData) ++ [⟨.fileEnd, []⟩]

/-- What one frame does to a transfer that has `received` of `size` bytes:
`.inl` to go on, `.inr` when the transfer is over. -/
def recvFrame (size : Nat) (received : Bytes) (frame : Message) : Bytes ⊕ TransferResult :=
  match frame.type with
  | .fileData =>
    if size - received.length < frame.payload.length then .inr .connectionLost
    else .inl (received ++ frame.payload)
  | .fileEnd => if received.length ≠ size then .inr .connectionLost else .inr .ok
  | .fileAbort => .inr .fileError
  | _ => .inr .connectionLost

/-- `recv_file_body` into a file that can be written: the result, the contents
received and the frames left. -/
def recvFileBody (size : Nat) : Bytes → List Message → TransferResult × Bytes × List Message
  | received, [] => (.connectionLost, received, [])
  | received, frame :: frames =>
    match recvFrame size received frame with
    | .inl more => recvFileBody size more frames
    | .inr result => (result, received, frames)

private theorem recvFileBody_chunksUpTo (content rest : Bytes) (n : Nat) (enough : rest.length ≤ n)
    (received : Bytes) (whole : received ++ rest = content) (frames : List Message) :
    recvFileBody content.length received
        ((chunksUpTo n rest).map (Message.mk .fileData) ++ ⟨.fileEnd, []⟩ :: frames) =
      (.ok, content, frames) := by
  have finish : rest = [] → recvFileBody content.length received (⟨.fileEnd, []⟩ :: frames) =
      (.ok, content, frames) := by
    rintro rfl
    rw [List.append_nil] at whole
    subst whole
    simp [recvFileBody, recvFrame]
  induction n generalizing rest received with
  | zero => exact finish (List.eq_nil_of_length_eq_zero (Nat.le_zero.mp enough))
  | succ n ih =>
    rw [chunksUpTo]
    split
    · rename_i empty
      exact finish (List.isEmpty_iff.mp empty)
    · rename_i occupied
      have size : content.length = received.length + rest.length := by
        rw [← whole, List.length_append]
      have positive : 0 < rest.length :=
        List.length_pos_of_ne_nil (mt List.isEmpty_iff.mpr occupied)
      have fits : ¬content.length - received.length < (rest.take FILE_CHUNK_SIZE).length := by
        rw [List.length_take]
        omega
      rw [List.map_cons, List.cons_append, recvFileBody]
      simp only [recvFrame, if_neg fits]
      have shorter : (rest.drop FILE_CHUNK_SIZE).length ≤ n := by
        rw [List.length_drop, FILE_CHUNK_SIZE]
        omega
      have glued : received ++ rest.take FILE_CHUNK_SIZE ++ rest.drop FILE_CHUNK_SIZE =
        content := by
        rw [List.append_assoc, List.take_append_drop, whole]
      refine ih _ shorter _ glued fun empty => ?_
      rw [empty, List.append_nil] at glued
      rw [glued]
      simp [recvFileBody, recvFrame]

/-- A body sent without read errors arrives as it was. -/
theorem recvFileBody_bodyFrames (content : Bytes) (frames : List Message) :
    recvFileBody content.length [] (bodyFrames content ++ frames) = (.ok, content, frames) := by
  rw [bodyFrames, List.append_assoc]
  exact recvFileBody_chunksUpTo content content _ (Nat.le_refl _) [] rfl frames

/-! ## Sending a file -/

/-- An open regular file: what `fstat` says, and what each read gives. The file
can change meanwhile, and any read can fail. -/
structure Source where
  size : UInt64
  mtime : Int64
  read : (offset n : Nat) → Option { data : Bytes // data.length = n }

/-- The chunks `send_file` sends, and whether all could be read. -/
def sendChunks (source : Source) : Nat → Nat → List Message × TransferResult
  | 0, _ => ([], .ok)
  | n + 1, offset =>
    if source.size.toNat ≤ offset then ([], .ok)
    else
      let chunk := min (source.size.toNat - offset) FILE_CHUNK_SIZE
      match source.read offset chunk with
      | none => ([], .fileError)
      | some data =>
        let rest := sendChunks source n (offset + chunk)
        (⟨.fileData, data.val⟩ :: rest.1, rest.2)

/-- The frame that ends a body. -/
def bodyEnd : TransferResult → Message
  | .ok => ⟨.fileEnd, []⟩
  | _ => ⟨.fileAbort, []⟩

/-- `send_file`: the frames sent and the result, or `none` when the writer
throws. There is no source when the path cannot be opened or is no regular
file. -/
def sendFile (type : Msg) (front name : Bytes) (source : Option Source) :
    Option (List Message × TransferResult) :=
  match source with
  | none => some ([], .notSent)
  | some source => do
    let header ← writeFileHeader ⟨name, source.size, source.mtime, 0⟩
    let body := sendChunks source source.size.toNat 0
    pure (⟨type, front ++ header⟩ :: (body.1 ++ [bodyEnd body.2]), body.2)

theorem fits_sendChunks (source : Source) (n offset : Nat) :
    ∀ m ∈ (sendChunks source n offset).1, m.Fits := by
  induction n generalizing offset with
  | zero => exact fun m mem => absurd mem List.not_mem_nil
  | succ n ih =>
    rw [sendChunks]
    split
    · exact fun m mem => absurd mem List.not_mem_nil
    · dsimp only
      cases source.read offset (min (source.size.toNat - offset) FILE_CHUNK_SIZE) with
      | none => exact fun m mem => absurd mem List.not_mem_nil
      | some data =>
        intro m mem
        rcases List.mem_cons.mp mem with rfl | later
        · have length := data.property
          have room : FILE_CHUNK_SIZE ≤ MAX_PAYLOAD := by decide
          unfold Message.Fits
          dsimp only
          omega
        · exact ih _ m later

/-- Every frame `send_file` sends can be sent. -/
theorem fits_sendFile {type : Msg} {front name : Bytes} {source : Option Source}
    {frames : List Message} {result : TransferResult} (short : front.length ≤ 0xFFFF + 2)
    (sent : sendFile type front name source = some (frames, result)) :
    ∀ m ∈ frames, m.Fits := by
  unfold sendFile at sent
  cases source with
  | none =>
    cases sent
    exact fun m mem => absurd mem List.not_mem_nil
  | some source =>
    obtain ⟨header, written, last⟩ := Option.bind_eq_some_iff.mp sent
    cases last
    have length := length_fileHeader_le written
    intro m mem
    rcases List.mem_cons.mp mem with rfl | later
    · unfold Message.Fits MAX_PAYLOAD
      rw [List.length_append]
      omega
    · rcases List.mem_append.mp later with chunk | last
      · exact fits_sendChunks source _ _ m chunk
      · rw [List.mem_singleton.mp last]
        cases (sendChunks source source.size.toNat 0).2 <;> exact Nat.zero_le _

/-- What is left of a body when `received` of `size` bytes are in. -/
inductive BodyRest (size : Nat) : Bytes → List Message → Prop
  | done {received : Bytes} (whole : received.length = size) :
      BodyRest size received [⟨.fileEnd, []⟩]
  | aborted (received : Bytes) : BodyRest size received [⟨.fileAbort, []⟩]
  | data {received data : Bytes} {frames : List Message}
      (within : received.length + data.length ≤ size)
      (rest : BodyRest size (received ++ data) frames) :
      BodyRest size received (⟨.fileData, data⟩ :: frames)

/-- A frame of a body keeps the rest of it in step with the receiver. -/
theorem BodyRest.head {size : Nat} {received : Bytes} {m : Message}
    {frames : List Message} (rest : BodyRest size received (m :: frames)) :
    (∃ more, recvFrame size received m = .inl more ∧ BodyRest size more frames) ∨
      (recvFrame size received m = .inr .ok ∨ recvFrame size received m = .inr .fileError) ∧
        frames = [] := by
  cases rest with
  | done whole => exact .inr ⟨.inl (by simp [recvFrame, whole]), rfl⟩
  | aborted => exact .inr ⟨.inr rfl, rfl⟩
  | data within rest =>
    refine .inl ⟨_, ?_, rest⟩
    rw [recvFrame]
    dsimp only
    rw [if_neg (by omega)]

/-- Whatever the reads give, `send_file` sends a whole body. -/
theorem bodyRest_sendChunks (source : Source) (n : Nat) (received : Bytes)
    (within : received.length ≤ source.size.toNat)
    (enough : source.size.toNat - received.length ≤ n) :
    BodyRest source.size.toNat received ((sendChunks source n received.length).1 ++
      [bodyEnd (sendChunks source n received.length).2]) := by
  induction n generalizing received with
  | zero => exact .done (by omega)
  | succ n ih =>
    rw [sendChunks]
    split
    · exact .done (by omega)
    · rename_i short
      dsimp only
      cases read : source.read received.length
          (min (source.size.toNat - received.length) FILE_CHUNK_SIZE) with
      | none => exact .aborted received
      | some data =>
        have length := data.property
        have glued : (received ++ data.val).length = received.length +
            min (source.size.toNat - received.length) FILE_CHUNK_SIZE := by
          rw [List.length_append, length]
        have positive : 0 < FILE_CHUNK_SIZE := by decide
        dsimp only
        rw [List.cons_append, ← glued]
        exact .data (by omega) (ih (received ++ data.val) (by omega) (by omega))

theorem bodyRest_sendFile {type : Msg} {front name : Bytes} {source : Source}
    {frames : List Message} {result : TransferResult}
    (sent : sendFile type front name (some source) = some (frames, result)) :
    ∃ header body, writeFileHeader ⟨name, source.size, source.mtime, 0⟩ = some header ∧
      frames = ⟨type, front ++ header⟩ :: body ∧ BodyRest source.size.toNat [] body := by
  obtain ⟨header, written, last⟩ := Option.bind_eq_some_iff.mp sent
  cases last
  exact ⟨header, _, written, rfl,
    bodyRest_sendChunks source _ [] (Nat.zero_le _) (Nat.sub_le ..)⟩

/-- The body of a file that is read whole. -/
def File.source (file : File) : Source where
  size := file.content.length.toUInt64
  mtime := file.mtime
  read offset n :=
    if whole : offset + n ≤ file.content.length then
      some ⟨(file.content.drop offset).take n, by rw [List.length_take, List.length_drop]; omega⟩
    else none

private theorem sendChunks_source (file : File) (n offset : Nat)
    (within : offset ≤ file.content.length) :
    sendChunks file.source n offset =
      ((chunksUpTo n (file.content.drop offset)).map (Message.mk .fileData), .ok) := by
  have size : file.source.size.toNat = file.content.length := file.toNat_size
  induction n generalizing offset with
  | zero => rfl
  | succ n ih =>
    rw [sendChunks, chunksUpTo, size]
    split
    · rename_i past
      rw [List.drop_of_length_le past]
      rfl
    · rename_i short
      have some_ : (file.content.drop offset).isEmpty = false := by
        rw [List.isEmpty_eq_false_iff, ne_eq, List.drop_eq_nil_iff]
        exact short
      have whole : offset + min (file.content.length - offset) FILE_CHUNK_SIZE ≤
          file.content.length := by omega
      have taken : (file.content.drop offset).take
          (min (file.content.length - offset) FILE_CHUNK_SIZE) =
            (file.content.drop offset).take FILE_CHUNK_SIZE := by
        rw [List.take_eq_take_iff, List.length_drop]
        omega
      have dropped : file.content.drop
          (offset + min (file.content.length - offset) FILE_CHUNK_SIZE) =
            (file.content.drop offset).drop FILE_CHUNK_SIZE := by
        rw [List.drop_drop]
        by_cases last : file.content.length - offset ≤ FILE_CHUNK_SIZE
        · rw [List.drop_of_length_le (by omega), List.drop_of_length_le (by omega)]
        · rw [Nat.min_eq_right (by omega)]
      have read : file.source.read offset (min (file.content.length - offset) FILE_CHUNK_SIZE) =
          some ⟨_, _⟩ := dif_pos whole
      have rest := ih (offset + min (file.content.length - offset) FILE_CHUNK_SIZE) whole
      rw [dropped] at rest
      simp only [some_, Bool.false_eq_true, if_false, read, rest, taken, List.map_cons]

/-- Sending a file that does not change and can be read is sending its header and
`bodyFrames`. -/
theorem sendFile_source (type : Msg) (front name : Bytes) (file : File) :
    sendFile type front name (some file.source) =
      (writeFileHeader (file.info name)).map fun header =>
        (⟨type, front ++ header⟩ :: bodyFrames file.content, .ok) := by
  have chunks := sendChunks_source file file.content.length 0 (Nat.zero_le _)
  have size : file.source.size.toNat = file.content.length := file.toNat_size
  have header : writeFileHeader ⟨name, file.source.size, file.source.mtime, 0⟩ =
      writeFileHeader (file.info name) := rfl
  unfold sendFile
  dsimp only
  rw [header, size, chunks]
  cases writeFileHeader (file.info name) <;> rfl

end SisOp
