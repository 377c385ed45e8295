import SisOp.Client.Symlinks
import SisOp.Client.SyncState

/-!
# Names of conflicted copies

`conflict_name` of `client/client.cpp` on a disk with folders, links and files that
cannot be opened. It cuts the stem and the extension so that the name fits its limit,
and counts attempts until `stat_file` finds no regular file.

Main result: `conflictName_usable_iff`, when the name it returns is a valid path at
which there is nothing.
-/

namespace SisOp.ConflictName

open Lib Std Links Symlinks

/-! ## The stamp -/

/-- What the stamp shows of a `std::tm`: the year is an `int` and 1900, the other
fields have two digits. -/
structure Tm where
  year : Fin (10 ^ 10)
  month : Fin 100
  day : Fin 100
  hour : Fin 100
  minute : Fin 100
  second : Fin 100

/-- `%m`, `%d`, `%H`, `%M` and `%S`. -/
def twoDigits (n : Nat) : Bytes := (Numeral.padded 10 2 n).map decimalChar

/-- Every character is printed and none separates words or folders. -/
def Shown (text : Bytes) : Prop := ∀ c ∈ text, 0x20 < c ∧ c ≠ 0x7F ∧ c ≠ slash

theorem Shown.append {a b : Bytes} (left : Shown a) (right : Shown b) : Shown (a ++ b) :=
  fun c mem => (List.mem_append.mp mem).elim (left c) (right c)

theorem Shown.cons {c : UInt8} {text : Bytes} (first : 0x20 < c ∧ c ≠ 0x7F ∧ c ≠ slash)
    (rest : Shown text) : Shown (c :: text) :=
  List.forall_mem_cons.mpr ⟨first, rest⟩

/-- Digits can be shown, and are no slashes. -/
theorem shown_digits {ds : List Nat} (small : ∀ d ∈ ds, d < 10) :
    Shown (ds.map decimalChar) := by
  have spec : ∀ d < 10, 0x20 < decimalChar d ∧ decimalChar d ≠ 0x7F ∧
      decimalChar d ≠ slash := by
    decide
  intro c mem
  obtain ⟨d, digit, rfl⟩ := List.mem_map.mp mem
  exact spec d (small d digit)

theorem shown_twoDigits (n : Nat) : Shown (twoDigits n) :=
  shown_digits (Numeral.padded_lt (by decide) 2 n)

theorem shown_unsignedText (n : Nat) : Shown (unsignedText n) :=
  shown_digits (Numeral.digits_lt (by decide) n)

/-- A text of this kind has no blank and no slash. -/
theorem Shown.plain {text : Bytes} (shown : Shown text) : (0x20 : UInt8) ∉ text ∧ slash ∉ text :=
  ⟨fun mem => absurd (shown _ mem).1 (by decide), fun mem => (shown _ mem).2.2 rfl⟩

def Tm.date (tm : Tm) : Bytes :=
  unsignedText tm.year ++ 0x2D :: (twoDigits tm.month ++ 0x2D :: twoDigits tm.day)

def Tm.time (tm : Tm) : Bytes :=
  twoDigits tm.hour ++ 0x2E :: (twoDigits tm.minute ++ 0x2E :: twoDigits tm.second)

theorem Tm.shown_date (tm : Tm) : Shown tm.date :=
  (shown_unsignedText _).append
    (.cons (by decide) ((shown_twoDigits _).append (.cons (by decide) (shown_twoDigits _))))

theorem Tm.shown_time (tm : Tm) : Shown tm.time :=
  (shown_twoDigits _).append
    (.cons (by decide) ((shown_twoDigits _).append (.cons (by decide) (shown_twoDigits _))))

/-- `strftime` with `"%Y-%m-%d %H.%M.%S"`. -/
def Tm.stamp (tm : Tm) : Stamp where
  date := tm.date
  time := tm.time
  date_plain := tm.shown_date.plain
  time_plain := tm.shown_time.plain
  time_dotted := List.mem_append_right _ List.mem_cons_self

/-! ## The search -/

/-- The first number from `k` on that is not taken, as far as `fuel` numbers go. -/
def search (taken : Nat → Bool) : Nat → Nat → Option Nat
  | 0, _ => none
  | fuel + 1, k => if taken k then search taken fuel (k + 1) else some k

/-- The search finds the first number that is not taken, if there is one in time. -/
theorem search_eq_some_iff {taken : Nat → Bool} {fuel k n : Nat} :
    search taken fuel k = some n ↔
      (k ≤ n ∧ n < k + fuel) ∧ taken n = false ∧ ∀ j, k ≤ j → j < n → taken j = true := by
  induction fuel generalizing k with
  | zero =>
    refine ⟨nofun, fun found => ?_⟩
    omega
  | succ fuel ih =>
    rw [search]
    split
    · rename_i here
      rw [ih]
      constructor
      · rintro ⟨⟨low, high⟩, free, before⟩
        refine ⟨⟨by omega, by omega⟩, free, fun j later sooner => ?_⟩
        rcases Nat.eq_or_lt_of_le later with rfl | later
        · exact here
        · exact before j later sooner
      · rintro ⟨⟨low, high⟩, free, before⟩
        have other : k ≠ n := by
          rintro rfl
          rw [here] at free
          cases free
        exact ⟨⟨by omega, by omega⟩, free, fun j later sooner => before j (by omega) sooner⟩
    · rename_i free
      rw [Option.some.injEq]
      constructor
      · rintro rfl
        exact ⟨⟨Nat.le_refl k, by omega⟩, Bool.eq_false_iff.mpr free, fun j _ _ => by omega⟩
      · rintro ⟨⟨low, -⟩, -, before⟩
        by_contra other
        exact free (before k (Nat.le_refl k) (by omega))

/-- The largest `int`; one attempt more overflows. -/
def INT_MAX : Nat := 2147483647

section Disk

variable (disk : Symlinks.Disk) (root : Place Bytes) (opens : Place Bytes → Bool)

/-- `stat_file`: only a regular file that can be opened is found. -/
def statFile (path : Bytes) : Bool :=
  match locate disk root path with
  | some place =>
    match disk.file? place with
    | some (.file _) => opens place
    | _ => false
  | none => false

def conflictName (name : Bytes) (tm : Tm) : Option Bytes :=
  (search (fun attempt => statFile disk root opens (conflictCandidate name tm.stamp attempt))
    INT_MAX 1).map (conflictCandidate name tm.stamp)

/-- There is no file, folder or link at the path. -/
def Vacant (path : Bytes) : Prop := ∀ place, locate disk root path = some place →
    disk.node place = none

/-- A path for a copy of `name`: it is valid, in the same folder, and nothing is there. -/
def Usable (name copy : Bytes) : Prop :=
  isValidPath copy = true ∧ parentPath copy = parentPath name ∧ Vacant disk root copy

end Disk

/-! ## The names that are tried -/

section Names

variable {file name : Bytes} {attempt : Nat}

theorem length_twoDigits (n : Nat) : (twoDigits n).length = 2 := by
  rw [twoDigits, List.length_map, Numeral.length_padded]

/-- What is added to a name takes 55 bytes at most. -/
theorem length_conflictTag_le (tm : Tm) (bound : attempt ≤ INT_MAX) :
    (conflictTag tm.stamp attempt).length ≤ 55 := by
  have year : (unsignedText tm.year).length ≤ 10 := by
    rw [unsignedText, List.length_map]
    exact Numeral.length_digits_le (by decide) (by decide) tm.year.isLt
  have date : tm.stamp.date.length ≤ 16 := by
    change tm.date.length ≤ 16
    rw [Tm.date, List.length_append, List.length_cons, List.length_append, List.length_cons,
      length_twoDigits, length_twoDigits]
    omega
  have time : tm.stamp.time.length = 8 := by
    change tm.time.length = 8
    rw [Tm.time, List.length_append, List.length_cons, List.length_append, List.length_cons,
      length_twoDigits, length_twoDigits, length_twoDigits]
  have number : (if attempt > 1 then [0x20] ++ decimal attempt else []).length ≤ 11 := by
    split
    · have small : attempt < 10 ^ 10 := Nat.lt_of_le_of_lt bound (by decide)
      have digits := (Nat.digits_length_le_iff (by decide) attempt).mpr small
      rw [List.length_append, List.length_singleton, decimal, List.length_reverse, List.length_map]
      omega
    · exact Nat.zero_le 11
  have opening : (bytes " (conflicted copy ").length = 18 := by decide
  have closing : (bytes ")").length = 1 := by decide
  rw [conflictTag, List.length_append, List.length_append, List.length_append, List.length_append,
    List.length_append, List.length_singleton, opening, closing, time]
  omega

/-- What is added to a name is allowed in a path. -/
theorem shown_conflictTag (tm : Tm) (attempt : Nat) :
    ∀ c ∈ conflictTag tm.stamp attempt, c ≠ slash ∧ ¬c < 0x20 ∧ c ≠ 0x7F := by
  have shows : ∀ {text : Bytes}, Shown text → ∀ c ∈ text, c ≠ slash ∧ ¬c < 0x20 ∧ c ≠ 0x7F := by
    intro text shown c mem
    obtain ⟨low, del, plain⟩ := shown c mem
    exact ⟨plain, fun below => absurd (UInt8.lt_trans low below) (UInt8.lt_irrefl _), del⟩
  have number : Shown (decimal attempt) := by
    have spec : ∀ d < 10, 0x20 < (0x30 + d.toUInt8 : UInt8) ∧ (0x30 + d.toUInt8 : UInt8) ≠ 0x7F ∧
        (0x30 + d.toUInt8 : UInt8) ≠ slash := by
      decide
    intro c mem
    obtain ⟨d, digit, rfl⟩ := List.mem_map.mp (List.mem_reverse.mp mem)
    exact spec d (Nat.digits_lt_base (by decide) digit)
  have opening : ∀ c ∈ bytes " (conflicted copy ", c ≠ slash ∧ ¬c < 0x20 ∧ c ≠ 0x7F := by
    decide +kernel
  have closing : ∀ c ∈ bytes ")", c ≠ slash ∧ ¬c < 0x20 ∧ c ≠ 0x7F := by decide +kernel
  intro c mem
  unfold conflictTag at mem
  rcases List.mem_append.mp mem with mem | mem
  · rcases List.mem_append.mp mem with mem | mem
    · rcases List.mem_append.mp mem with mem | mem
      · rcases List.mem_append.mp mem with mem | mem
        · rcases List.mem_append.mp mem with mem | mem
          · exact opening c mem
          · exact shows tm.shown_date c mem
        · rw [List.mem_singleton.mp mem]
          decide
      · exact shows tm.shown_time c mem
    · split at mem
      · rcases List.mem_append.mp mem with mem | mem
        · rw [List.mem_singleton.mp mem]
          decide
        · exact shows number c mem
      · cases mem
  · exact closing c mem

/-- Cut to the limit, the name keeps its tag; it is a valid one. -/
theorem isValidFileName_conflictFile (valid : isValidFileName file = true) (tm : Tm)
    (bound : attempt ≤ INT_MAX) : isValidFileName (conflictFile file tm.stamp attempt) = true := by
  obtain ⟨-, -, -, -, free, chars⟩ := isValidFileName_iff.mp valid
  have tag := length_conflictTag_le tm bound
  have paren := mem_conflictFile file tm.stamp attempt
  refine isValidFileName_iff.mpr ⟨List.ne_nil_of_mem paren, ?_, ?_, ?_, ?_, ?_⟩
  · have limit : MAX_NAME_LENGTH = 255 := rfl
    rw [conflictFile, limit]
    simp only [List.length_append, List.length_take]
    omega
  · intro dot
    rw [dot] at paren
    exact absurd paren (by decide)
  · intro dots
    rw [dots] at paren
    exact absurd paren (by decide)
  · intro reserved
    have front : (file.take (extensionStart file)).take (MAX_NAME_LENGTH -
        (conflictTag tm.stamp attempt).length - min (file.drop (extensionStart file)).length 32) <+:
          file :=
      (List.take_prefix _ _).trans (List.take_prefix _ _)
    unfold conflictFile at reserved
    generalize (file.take (extensionStart file)).take (MAX_NAME_LENGTH -
      (conflictTag tm.stamp attempt).length - min (file.drop (extensionStart file)).length 32) =
        stem at front reserved
    rw [List.append_assoc] at reserved
    rcases Nat.lt_or_ge stem.length RESERVED_PREFIX.length with short | long
    · -- the space before the tag would be among the first characters
      have space : (0x20 : UInt8) ∈ RESERVED_PREFIX := by
        obtain ⟨left, eq⟩ := Nat.exists_eq_add_of_lt short
        rw [← reserved, List.take_append, eq, Nat.add_assoc, Nat.add_sub_cancel_left]
        exact List.mem_append_right _ List.mem_cons_self
      exact absurd space (by decide)
    · obtain ⟨rest, rfl⟩ := front
      rw [List.take_append_of_le_length long] at reserved free
      exact free reserved
  · intro c mem
    unfold conflictFile at mem
    rcases List.mem_append.mp mem with mem | mem
    · rcases List.mem_append.mp mem with mem | mem
      · exact chars c (List.mem_of_mem_take (List.mem_of_mem_take mem))
      · exact shown_conflictTag tm attempt c mem
    · exact chars c (List.mem_of_mem_drop (List.mem_of_mem_take mem))

/-- A name that is tried is a valid path exactly when it fits the limit of a path. -/
theorem isValidPath_conflictCandidate (valid : isValidPath name = true) (tm : Tm)
    (bound : attempt ≤ INT_MAX) : isValidPath (conflictCandidate name tm.stamp attempt) = true ↔
      (conflictCandidate name tm.stamp attempt).length ≤ MAX_PATH_LENGTH := by
  obtain ⟨-, names, short⟩ := isValidPath_iff.mp valid
  have base := names name (List.mem_append_right _ (List.mem_singleton_self _))
  rw [isValidPath_iff, dirs_conflictCandidate valid, and_iff_left]
  refine ⟨fun p mem => ?_, short⟩
  rcases List.mem_append.mp mem with above | here
  · exact names p (List.mem_append_left _ above)
  · rw [List.mem_singleton.mp here, baseName_conflictCandidate]
    exact isValidFileName_conflictFile base tm bound

end Names

/-! ## The law -/

/-- Where there is nothing `stat_file` finds nothing. -/
theorem statFile_of_vacant {disk : Symlinks.Disk} {root : Place Bytes} {opens : Place Bytes → Bool}
    {path : Bytes} (vacant : Vacant disk root path) : statFile disk root opens path = false := by
  unfold statFile
  split
  · rename_i place located
    rw [FileTree.file?, vacant place located]
  · rfl

/-- **A usable name.** For a valid path `conflict_name` returns a usable one exactly
when the first of its attempts that finds no readable regular file finds nothing at all
at a path within the limit, before the number of attempts overflows. -/
theorem conflictName_usable_iff {disk : Symlinks.Disk} {root : Place Bytes}
    {opens : Place Bytes → Bool} {name : Bytes} {tm : Tm} (valid : isValidPath name = true) :
    (∃ copy, conflictName disk root opens name tm = some copy ∧ Usable disk root name copy) ↔
      ∃ attempt, 1 ≤ attempt ∧ attempt ≤ INT_MAX ∧
        (∀ earlier, 1 ≤ earlier → earlier < attempt →
          statFile disk root opens (conflictCandidate name tm.stamp earlier) = true) ∧
        Vacant disk root (conflictCandidate name tm.stamp attempt) ∧
        (conflictCandidate name tm.stamp attempt).length ≤ MAX_PATH_LENGTH := by
  constructor
  · rintro ⟨copy, returned, validCopy, -, vacant⟩
    obtain ⟨attempt, found, rfl⟩ := Option.map_eq_some_iff.mp returned
    obtain ⟨⟨low, high⟩, -, before⟩ := search_eq_some_iff.mp found
    have bound : attempt ≤ INT_MAX := by omega
    exact ⟨attempt, low, bound, before, vacant,
      (isValidPath_conflictCandidate valid tm bound).mp validCopy⟩
  · rintro ⟨attempt, low, bound, before, vacant, short⟩
    refine ⟨conflictCandidate name tm.stamp attempt, Option.map_eq_some_iff.mpr ⟨attempt, ?_, rfl⟩,
      (isValidPath_conflictCandidate valid tm bound).mpr short,
      parentPath_conflictCandidate valid tm.stamp attempt, vacant⟩
    exact search_eq_some_iff.mpr ⟨⟨low, by omega⟩, statFile_of_vacant vacant, before⟩

section Examples

/-- 14:03:07 on a day in October. -/
def now : Tm := ⟨2026, 10, 20, 14, 3, 7⟩

def syncDir : Place Bytes := ⟨[bytes "s"]⟩

/-- sync_dir with a file `x` and some folders. -/
def diskWith (folders : List Bytes) : Symlinks.Disk :=
  let made := ([.root, syncDir] ++ folders.map syncDir.child).foldl
    (fun (disk : Symlinks.Disk) place => (disk.mkdir place).getD disk) ∅
  (made.place (syncDir.child (bytes "x")) (.file (.single 1 0))).getD made

def copyName : Bytes := bytes "x (conflicted copy 2026-10-20 14.03.07)"

theorem conflictName_usable_alone :
    ∃ copy, conflictName (diskWith []) syncDir (fun _ => true) (bytes "x") now = some copy ∧
      Usable (diskWith []) syncDir (bytes "x") copy := by
  refine (conflictName_usable_iff (by decide)).mpr ⟨1, Nat.le_refl 1, by decide,
    fun earlier low high => absurd low (Nat.not_le_of_lt high), fun place located => ?_,
    by decide +kernel⟩
  have there : locate (diskWith []) syncDir (conflictCandidate (bytes "x") now.stamp 1) =
      some (syncDir.child copyName) := by
    decide +kernel
  rw [there] at located
  cases located
  decide +kernel

/-- A folder that has the name of the copy is not seen. -/
theorem folder_taken :
    ¬∀ (disk : Symlinks.Disk) (root : Place Bytes) (opens : Place Bytes → Bool) (name : Bytes)
      (tm : Tm), isValidPath name = true →
      ∃ copy, conflictName disk root opens name tm = some copy ∧ Usable disk root name copy := by
  intro claim
  obtain ⟨copy, returned, -, -, vacant⟩ := claim (diskWith [copyName]) syncDir (fun _ => true)
    (bytes "x") now (by decide)
  have name : conflictName (diskWith [copyName]) syncDir (fun _ => true) (bytes "x") now =
      some copyName := by
    decide +kernel
  rw [name] at returned
  cases returned
  have free := vacant (syncDir.child copyName) (by decide +kernel)
  have folder : (diskWith [copyName]).node (syncDir.child copyName) = some .dir := by
    decide +kernel
  rw [folder] at free
  cases free

end Examples

end SisOp.ConflictName
