import SisOp.Common.Files
import SisOp.Lib.Links
import Mathlib.Data.List.TakeWhile

/-!
# Which paths are accepted

The loop of `is_valid_path` of `common/files.cpp`, which finds one `/` after the
other, and what the system makes of a path it accepts: the C string that a call
gets, and the places passed when it is resolved component by component.

Main result: `accepted_iff`, the loop accepts the paths of a grammar, and these
stay below the directory they are joined to.
-/

namespace SisOp.Paths

open Lib

/-! ## The loop -/

/-- `path.find('/', start)`; `npos` is `none`. -/
def find (path : Bytes) (start : Nat) : Option Nat :=
  ((path.drop start).findIdx? (· == slash)).map (start + ·)

/-- `path.substr(start, slash - start)`. -/
def component (path : Bytes) (start : Nat) : Option Nat → Bytes
  | some s => (path.drop start).take (s - start)
  | none => path.drop start

/-- `is_valid_path` from `start` on, `depth` components being counted. -/
def scan (path : Bytes) (start depth : Nat) : Bool :=
  if _ : isValidFileName (component path start (find path start)) = false ∨
      depth + 1 > MAX_PATH_DEPTH then false
  else
    match find path start with
    | none => true
    | some s => scan path (s + 1) (depth + 1)
termination_by MAX_PATH_DEPTH - depth

def isValidPath (path : Bytes) : Bool :=
  if path.isEmpty || decide (path.length > MAX_PATH_LENGTH) then false else scan path 0 0

section Find

variable {path : Bytes} {start s : Nat}

theorem not_mem_of_find (missing : find path start = none) : slash ∉ path.drop start := by
  rw [find, Option.map_eq_none_iff, List.findIdx?_eq_none_iff] at missing
  intro mem
  have here := missing slash mem
  rw [beq_self_eq_true] at here
  cases here

/-- What is found cuts the rest of the path in two. -/
theorem drop_of_find (found : find path start = some s) :
    path.drop start = component path start (some s) ++ slash :: path.drop (s + 1) ∧
      slash ∉ component path start (some s) := by
  obtain ⟨i, first, rfl⟩ := Option.map_eq_some_iff.mp found
  obtain ⟨bound, here, before⟩ := List.findIdx?_eq_some_iff_getElem.mp first
  have cut : component path start (some (start + i)) = (path.drop start).take i := by
    rw [component, Nat.add_sub_cancel_left]
  rw [cut]
  constructor
  · have next : path.drop (start + i + 1) = (path.drop start).drop (i + 1) := by
      rw [List.drop_drop, Nat.add_assoc]
    conv => lhs; rw [← List.take_append_drop i (path.drop start), List.drop_eq_getElem_cons bound]
    rw [next, eq_of_beq here]
  · intro mem
    obtain ⟨j, short, eq⟩ := List.mem_iff_getElem.mp mem
    rw [List.length_take] at short
    rw [List.getElem_take] at eq
    have differs := before j (by omega)
    rw [eq, beq_self_eq_true] at differs
    exact differs rfl

/-- The components from `start` on: the next one, and those after the `/` found. -/
theorem splitOn_drop (path : Bytes) (start : Nat) :
    (path.drop start).splitOn slash = component path start (find path start) ::
      match find path start with
      | none => []
      | some s => (path.drop (s + 1)).splitOn slash := by
  cases found : find path start with
  | none =>
    rw [List.splitOn_eq_singleton (not_mem_of_find found)]
    rfl
  | some s =>
    obtain ⟨cut, plain⟩ := drop_of_find found
    rw [cut, List.splitOn_append_cons_self, List.splitOn_eq_singleton plain]
    rfl

end Find

/-- The loop checks the components and counts them. -/
theorem scan_eq (path : Bytes) (start depth : Nat) :
    scan path start depth = (((path.drop start).splitOn slash).all isValidFileName &&
      decide (depth + ((path.drop start).splitOn slash).length ≤ MAX_PATH_DEPTH)) := by
  fun_induction scan path start depth with
  | case1 start depth refused =>
    rw [splitOn_drop, List.all_cons, List.length_cons]
    rcases refused with name | deep
    · rw [name, Bool.false_and, Bool.false_and]
    · rw [decide_eq_false (by omega), Bool.and_false]
  | case2 start depth accepted missing =>
    obtain ⟨name, shallow⟩ := not_or.mp accepted
    rw [Bool.not_eq_false] at name
    rw [splitOn_drop, missing] at *
    rw [List.all_cons, name, List.all_nil, List.length_singleton,
      decide_eq_true (Nat.not_lt.mp shallow)]
    rfl
  | case3 start depth accepted s found ih =>
    obtain ⟨name, -⟩ := not_or.mp accepted
    rw [Bool.not_eq_false] at name
    rw [ih, splitOn_drop path start, List.all_cons, name, Bool.true_and, List.length_cons, found,
      Nat.add_assoc, Nat.add_comm 1]

theorem isValidPath_eq (path : Bytes) : isValidPath path = SisOp.isValidPath path := by
  unfold isValidPath SisOp.isValidPath
  rw [scan_eq, List.drop_zero, Nat.zero_add]

/-! ## The grammar -/

/-- A component of an accepted path. -/
structure IsName (name : Bytes) : Prop where
  filled : 1 ≤ name.length
  short : name.length ≤ MAX_NAME_LENGTH
  notHere : name ≠ bytes "."
  notUp : name ≠ bytes ".."
  notReserved : ¬RESERVED_PREFIX <+: name
  plain : slash ∉ name
  printable : ∀ c ∈ name, ¬c < 0x20 ∧ c ≠ 0x7F

/-- Names joined by single `/`. -/
structure Joined (path : Bytes) (names : List Bytes) : Prop where
  each : ∀ name ∈ names, IsName name
  eq : path = [slash].intercalate names
  one : 1 ≤ names.length
  depth : names.length ≤ MAX_PATH_DEPTH
  filled : 1 ≤ path.length
  short : path.length ≤ MAX_PATH_LENGTH

theorem isValidFileName_iff_isName (name : Bytes) : isValidFileName name = true ↔ IsName name := by
  rw [isValidFileName_iff, ← List.length_pos_iff]
  constructor
  · rintro ⟨filled, short, notHere, notUp, free, each⟩
    refine ⟨filled, short, notHere, notUp, ?_, fun mem => (each slash mem).1 rfl,
      fun c mem => (each c mem).2⟩
    rwa [List.prefix_iff_eq_take, eq_comm]
  · intro is
    refine ⟨is.filled, is.short, is.notHere, is.notUp, ?_, fun c mem => ⟨?_, is.printable c mem⟩⟩
    · rw [ne_eq, eq_comm, ← List.prefix_iff_eq_take]
      exact is.notReserved
    · rintro rfl
      exact is.plain mem

/-- The names of a joined path are its components. -/
theorem Joined.splitOn {path : Bytes} {names : List Bytes} (joined : Joined path names) :
    path.splitOn slash = names := by
  rw [joined.eq]
  refine List.splitOn_intercalate slash (fun name mem => (joined.each name mem).plain) ?_
  exact List.ne_nil_of_length_pos joined.one

theorem isValidPath_iff_joined (path : Bytes) :
    isValidPath path = true ↔ ∃ names, Joined path names := by
  unfold isValidPath
  rw [scan_eq, List.drop_zero, Nat.zero_add]
  constructor
  · intro accepted
    split at accepted
    · cases accepted
    · rename_i sized
      rw [Bool.or_eq_true, List.isEmpty_iff, decide_eq_true_eq, not_or] at sized
      rw [Bool.and_eq_true, List.all_eq_true, decide_eq_true_eq] at accepted
      refine ⟨path.splitOn slash, fun name mem => ?_, ?_, ?_, accepted.2, ?_, ?_⟩
      · exact (isValidFileName_iff_isName name).mp (accepted.1 name mem)
      · exact (List.intercalate_splitOn slash).symm
      · exact List.length_pos_of_ne_nil (List.splitOn_ne_nil slash path)
      · exact List.length_pos_of_ne_nil sized.1
      · exact Nat.not_lt.mp sized.2
  · rintro ⟨names, joined⟩
    have sized : ¬(path.isEmpty || decide (path.length > MAX_PATH_LENGTH)) = true := by
      rw [Bool.or_eq_true, List.isEmpty_iff, decide_eq_true_eq, not_or]
      exact ⟨List.ne_nil_of_length_pos joined.filled, Nat.not_lt.mpr joined.short⟩
    rw [if_neg sized, joined.splitOn, Bool.and_eq_true, List.all_eq_true, decide_eq_true_eq]
    exact ⟨fun name mem => (isValidFileName_iff_isName name).mpr (joined.each name mem),
      joined.depth⟩

/-! ## What the system makes of a path -/

/-- The C string a call gets: it ends at the first NUL. -/
def cString (path : Bytes) : Bytes := path.takeWhile (· != 0)

/-- One component, from a directory. -/
def enter (dir : Place Bytes) (component : Bytes) : Place Bytes :=
  if component.isEmpty || component == bytes "." then dir
  else if component == bytes ".." then dir.parent
  else dir.child component

/-- Where a path starts: at the root of the file system, or in the working directory. -/
def origin (cwd : Place Bytes) (path : Bytes) : Place Bytes :=
  if path.head? = some slash then .root else cwd

/-- Where a path leads when no name in it is a link. -/
def resolve (cwd : Place Bytes) (path : Bytes) : Place Bytes :=
  (path.splitOn slash).foldl enter (origin cwd path)

/-- The resolution of `root/path` is that of `root`, continued by the components of
`path` without leaving the directory that `root` is. -/
def Stays (cwd : Place Bytes) (root path : Bytes) : Prop :=
  ∃ front, (joinPath root path).splitOn slash = front ++ path.splitOn slash ∧
    front.foldl enter (origin cwd (joinPath root path)) = resolve cwd root ∧
      ∀ place ∈ (path.splitOn slash).scanl enter (resolve cwd root),
        (resolve cwd root).Within place

theorem enter_name {name : Bytes} (is : IsName name) (dir : Place Bytes) :
    enter dir name = dir.child name := by
  have filled : name ≠ [] := List.ne_nil_of_length_pos is.filled
  rw [enter, if_neg, if_neg]
  · rw [beq_iff_eq]
    exact is.notUp
  · rw [Bool.or_eq_true, List.isEmpty_iff, beq_iff_eq, not_or]
    exact ⟨filled, is.notHere⟩

/-- Names only lead down. -/
theorem within_of_names {names : List Bytes} (each : ∀ name ∈ names, IsName name)
    {dir root : Place Bytes} (below : root.Within dir) :
    ∀ place ∈ names.scanl enter dir, root.Within place := by
  induction names generalizing dir with
  | nil =>
    intro place mem
    rw [List.scanl_nil, List.mem_singleton] at mem
    rwa [mem]
  | cons name names ih =>
    intro place mem
    rw [List.scanl_cons] at mem
    rcases List.mem_cons.mp mem with rfl | later
    · exact below
    · have down : root.Within (enter dir name) := by
        rw [enter_name (each name List.mem_cons_self)]
        exact below.trans (Place.within_child dir name)
      exact ih (fun n more => each n (List.mem_cons_of_mem _ more)) down place later

theorem head?_of_joined {path : Bytes} {names : List Bytes} (joined : Joined path names) :
    path.head? ≠ some slash := by
  intro first
  obtain ⟨rest, eq⟩ := List.head?_eq_some_iff.mp first
  have components := joined.splitOn
  rw [eq, ← List.nil_append (slash :: rest), List.splitOn_append_cons_self] at components
  have empty : IsName [] := by
    refine joined.each [] ?_
    rw [← components, List.splitOn_nil]
    exact List.mem_append_left _ (List.mem_singleton_self _)
  exact absurd empty.filled (by decide)

theorem stays_of_joined {path : Bytes} {names : List Bytes} (joined : Joined path names)
    (cwd : Place Bytes) (root : Bytes) : Stays cwd root path := by
  have below : ∀ place ∈ (path.splitOn slash).scanl enter (resolve cwd root),
      (resolve cwd root).Within place := by
    rw [joined.splitOn]
    exact within_of_names joined.each (Place.within_refl _)
  rcases joinPath_cases root path with ⟨rfl, join⟩ | ⟨d, rfl, join⟩ | ⟨filled, join⟩
  · refine ⟨[], by rw [join, List.nil_append], ?_, below⟩
    rw [join, List.foldl_nil, origin, if_neg (head?_of_joined joined)]
    rfl
  · refine ⟨d.splitOn slash, by rw [join, List.splitOn_append_cons_self], ?_, below⟩
    have start : origin cwd (d ++ slash :: path) = origin cwd (d ++ [slash]) := by
      rw [origin, origin, List.head?_append, List.head?_append]
      rfl
    rw [join, start, resolve, List.splitOn_append_cons_self, List.foldl_append, List.splitOn_nil]
    rfl
  · refine ⟨root.splitOn slash, by rw [join, List.splitOn_append_cons_self], ?_, below⟩
    rw [join, origin, List.head?_append_of_ne_nil _ filled, resolve, origin]

/-- No byte of an accepted path ends a C string. -/
theorem nul_not_mem {path : Bytes} (accepted : isValidPath path = true) : 0 ∉ path := by
  rw [isValidPath_eq] at accepted
  exact fun mem => printable_of_isValidPath accepted 0 mem (by decide)

theorem cString_eq {path : Bytes} (whole : 0 ∉ path) : cString path = path := by
  refine List.takeWhile_eq_self_iff.mpr fun c mem => ?_
  rw [bne_iff_ne]
  rintro rfl
  exact whole mem

/-- **Paths are accepted exactly when they are in the grammar, and accepted paths
stay below every directory they are joined to, as the C string that was checked.** -/
theorem accepted_iff (path : Bytes) :
    (isValidPath path = true ↔ ∃ names, Joined path names) ∧
      (isValidPath path = true → (∀ cwd root, Stays cwd root path) ∧ 0 ∉ path ∧
        ∀ root, 0 ∉ root → cString (joinPath root path) = joinPath root path) := by
  refine ⟨isValidPath_iff_joined path,
    fun accepted => ⟨fun cwd root => ?_, nul_not_mem accepted, ?_⟩⟩
  · obtain ⟨names, joined⟩ := (isValidPath_iff_joined path).mp accepted
    exact stays_of_joined joined cwd root
  · intro root whole
    have apart : 0 ∉ slash :: path := by
      rw [List.mem_cons, not_or]
      exact ⟨by decide, nul_not_mem accepted⟩
    refine cString_eq ?_
    rcases joinPath_cases root path with ⟨-, join⟩ | ⟨d, rfl, join⟩ | ⟨-, join⟩
    · rw [join]
      exact nul_not_mem accepted
    · rw [join, List.mem_append, not_or]
      exact ⟨fun mem => whole (List.mem_append_left _ mem), apart⟩
    · rw [join, List.mem_append, not_or]
      exact ⟨whole, apart⟩

end SisOp.Paths
