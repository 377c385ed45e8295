import SisOp.Common.Walk
import SisOp.Common.Paths
import SisOp.Lib.Inotify
import SisOp.Lib.Places
import SisOp.Lib.Run

/-!
# Watching the sync directory

`client/watcher.cpp` and the queue of the client's worker, one system call or event
at a time, while programs work in the directory: they make, fill, rename, move in
and out and remove files and whole directories at any moment, also between two calls
of `watch_tree`; `opendir` with its `readdir`s is one step, and so is the loop of
`unwatch_tree`. Left out are symbolic links, files made by `link`, whose `IN_CREATE`
the watcher ignores, changes by `truncate` or through a mapping, after which no
`IN_CLOSE_WRITE` comes, directories renamed onto empty ones, failing `lstat`s and a
sync directory that is itself moved.

Main results: `paths`, the root and the valid paths below it, and `isInside_iff`,
`is_inside` is true of a path and of those below it. `SisOp.Client.Reports` is about
what the runs defined here lead to.
-/

namespace SisOp.Watcher

open Lib Lib.Inotify Std

/-! ## Names and paths -/

/-- What the system has as a name. -/
abbrev Name := { name : Bytes // name ≠ [] ∧ slash ∉ name }

instance : Ord Name where
  compare a b := compare a.1 b.1

instance : TransOrd Name where
  eq_swap {a b} := (OrientedCmp.eq_swap : compare a.1 b.1 = (compare b.1 a.1).swap)
  isLE_trans {a _ c} one two :=
    (TransCmp.isLE_trans one two : (compare a.1 c.1).isLE)

instance : LawfulEqOrd Name where
  eq_of_compare eq := Subtype.ext (LawfulEqOrd.eq_of_compare eq)
  compare_self := ReflOrd.compare_self

def child (dir : Bytes) (name : Name) : Bytes := Walk.relativePath dir name.1

/-- `is_inside`: `path.compare(0, dir.size() + 1, dir + "/")` is that of a prefix. -/
def isInside (path dir : Bytes) : Bool :=
  path == dir || path.take (dir.length + 1) == dir ++ [slash]

def asName (name : Bytes) : Option Name :=
  if plain : name ≠ [] ∧ slash ∉ name then some ⟨name, plain⟩ else none

/-- The names a path is resolved by. -/
def components (path : Bytes) : List Name := (path.splitOn slash).filterMap asName

/-! ## What paths lead to -/

variable {κ : Type*}

/-- The entries of a file system, the watches, the table `dirs_` and the events that
were not handled: what the next events mean depends on these only. -/
structure View (κ : Type*) where
  root : Nat
  rootWd : Nat
  dirs : Nat → ExtTreeMap Name (DirEntry κ)
  watch : Nat → Option Nat
  table : ExtTreeMap Nat Bytes
  pend : List (Event Name)

namespace View

variable (v : View κ)

def step (node : Option (DirEntry κ)) (name : Name) : Option (DirEntry κ) :=
  match node with
  | some (.dir inode) => (v.dirs inode)[name]?
  | _ => none

/-- What `root_` joined with a relative path leads to. -/
def find (path : Bytes) : Option (DirEntry κ) :=
  (components path).foldl v.step (some (.dir v.root))

/-- What is read at a path. -/
def content (path : Bytes) : Option κ := (v.find path).bind DirEntry.content?

end View

/-! ## The watcher and the queue -/

/-- What is left to do of an event, or of `start`: the calls of `watch_tree`, with the
names that `readdir` is still to return, and what comes after them. -/
inductive Task where
  | visit (path : Bytes)
  | list (path : Bytes)
  | scan (path : Bytes) (names : List Name)
  | report
  | started
  deriving DecidableEq

/-- The watcher's thread next to the kernel and the queue of the worker. `first` is what
was at each path when `start` returned, and `seen` what was there when the worker last
took it, or everything, from its queue since then; `refused` remembers a system call
that failed. -/
structure State (κ : Type*) where
  root : Nat
  kernel : Kernel Name κ
  rootWd : Nat
  dirs : ExtTreeMap Nat Bytes
  buffer : List (Event Name)
  todo : List Task
  ended : Bool
  queue : List Bytes
  queued : ExtTreeMap Bytes Unit
  first : Bytes → Option κ
  seen : Bytes → Option (Option κ)
  refused : Bool

/-- What happens next: a program in the directory, a call of `watch_tree`, a `read` of
events, an event, or the worker taking a name. -/
inductive Action (κ : Type*) where
  | program (op : Op Name κ)
  | call (allowed : Bool)
  | read (count : Nat)
  | handle
  | take

namespace State

variable (s : State κ)

def view : View κ :=
  ⟨s.root, s.rootWd, s.kernel.dirs, s.kernel.watch, s.dirs, s.buffer ++ s.kernel.queue⟩

/-- `Client::enqueue`. -/
def enqueue (name : Bytes) : State κ :=
  if name ∈ s.queued then s
  else { s with queued := s.queued.insert name (), queue := s.queue ++ [name] }

/-- One turn of the loop of `unwatch_tree`. -/
def unwatch (relativeDir : Bytes) (entry : Nat × Bytes) : State κ :=
  if entry.1 ≠ s.rootWd ∧ isInside entry.2 relativeDir then
    { s with kernel := s.kernel.rmWatch entry.1, dirs := s.dirs.erase entry.1 }
  else s

def unwatchTree (relativeDir : Bytes) : State κ :=
  s.dirs.toList.foldl (fun s entry => s.unwatch relativeDir entry) s

/-- The next call: `inotify_add_watch`, `opendir`, `lstat` or `on_change_("")`. -/
def call (allowed : Bool) : Option (State κ) :=
  match s.todo with
  | [] => none
  | .visit path :: rest =>
    match s.view.find path with
    | some (.dir inode) =>
      if allowed then
        some { s with
          kernel := (s.kernel.addWatch inode).2
          dirs := s.dirs.insert (s.kernel.addWatch inode).1 path
          todo := .list path :: rest }
      else some { s with todo := rest, refused := true }
    | _ => some { s with todo := rest }
  | .list path :: rest =>
    match s.view.find path with
    | some (.dir inode) =>
      if allowed then some { s with todo := .scan path (s.kernel.dirs inode).keys :: rest }
      else some { s with todo := rest, refused := true }
    | _ => some { s with todo := rest }
  | .scan _ [] :: rest => some { s with todo := rest }
  | .scan path (name :: names) :: rest =>
    if isValidFileName name.1 && ((s.view.find (child path name)).any DirEntry.isDir) &&
        isValidPath (child path name) then
      some { s with todo := .visit (child path name) :: .scan path names :: rest }
    else some { s with todo := .scan path names :: rest }
  | .report :: rest => some ({ s with todo := rest }.enqueue [])
  | .started :: rest => some { s with todo := rest, first := s.view.content, seen := fun _ => none }

/-- One turn of the inner loop of `Watcher::loop`. -/
def event : Event Name → State κ
  | .overflow => s.enqueue []
  | .deleteSelf wd | .moveSelf wd => if wd = s.rootWd then { s with ended := true } else s
  | .ignored wd =>
    if wd = s.rootWd then { s with ended := true } else { s with dirs := s.dirs.erase wd }
  | .entry wd kind isDir name =>
    match s.dirs[wd]? with
    | none => s
    | some dir =>
      if !isValidPath (child dir name) then s
      else if isDir then
        match kind with
        | .create | .movedTo => { s with todo := [.visit (child dir name), .report] }
        | .delete | .movedFrom => { s.unwatchTree (child dir name) with todo := [.report] }
        | .closeWrite => { s with todo := [.report] }
      else if kind ≠ .create then s.enqueue (child dir name)
      else s

end State

def step (s : State κ) : Action κ → Option (State κ)
  | .program op => (s.kernel.apply op).map fun kernel => { s with kernel }
  | .call allowed => s.call allowed
  | .read count =>
    if s.todo.isEmpty && s.buffer.isEmpty && !s.ended then
      some { s with
        buffer := s.kernel.queue.take count
        kernel := { s.kernel with queue := s.kernel.queue.drop count } }
    else none
  | .handle =>
    match s.buffer with
    | [] => none
    | event :: rest =>
      if s.todo.isEmpty && !s.ended then some ({ s with buffer := rest }.event event) else none
  | .take =>
    match s.queue with
    | [] => none
    | name :: rest =>
      some { s with
        queue := rest
        queued := s.queued.erase name
        seen := fun path =>
          if name.isEmpty || path == name then some (s.view.content path) else s.seen path }

/-- `Watcher::start`, on a descriptor with no watch and no event. -/
def start (root : Nat) (k : Kernel Name κ) : State κ where
  root := root
  kernel := (k.addWatch root).2
  rootWd := (k.addWatch root).1
  dirs := (∅ : ExtTreeMap Nat Bytes).insert (k.addWatch root).1 []
  buffer := []
  todo := [.list [], .started]
  ended := false
  queue := []
  queued := ∅
  first := fun _ => none
  seen := fun _ => none
  refused := false

/-! ## Paths -/

section Paths

variable {p q dir : Bytes} {name : Name}

theorem child_nil (name : Name) : child [] name = name.1 := rfl

theorem child_of_ne_nil (filled : dir ≠ []) (name : Name) :
    child dir name = dir ++ slash :: name.1 :=
  if_neg fun empty => filled (List.isEmpty_iff.mp empty)

/-- A name is one more component. -/
theorem splitOn_child (filled : dir ≠ []) (name : Name) :
    (child dir name).splitOn slash = dir.splitOn slash ++ [name.1] := by
  rw [child_of_ne_nil filled, List.splitOn_append_cons_self, List.splitOn_eq_singleton name.2.2]

theorem asName_val (name : Name) : asName name.1 = some name := dif_pos name.2

theorem components_nil : components [] = [] := by
  rw [components, List.splitOn_nil, List.filterMap_cons_none]
  · rfl
  · exact dif_neg fun plain => plain.1 rfl

/-- The components of a child are those of the directory and its name. -/
theorem components_child (dir : Bytes) (name : Name) :
    components (child dir name) = components dir ++ [name] := by
  by_cases filled : dir = []
  · subst filled
    rw [components_nil, components, child_nil, List.splitOn_eq_singleton name.2.2,
      List.filterMap_cons_some (asName_val name)]
    rfl
  · rw [components, splitOn_child filled, List.filterMap_append,
      List.filterMap_cons_some (asName_val name)]
    rfl

/-- A path has one directory and one name. -/
theorem child_inj {name' : Name} (eq : child p name = child q name') : p = q ∧ name = name' := by
  by_cases left : p = []
  · by_cases right : q = []
    · rw [left, right, child_nil, child_nil] at eq
      exact ⟨left.trans right.symm, Subtype.ext eq⟩
    · rw [left, child_nil, child_of_ne_nil right] at eq
      exact absurd (eq ▸ List.mem_append_right _ List.mem_cons_self) name.2.2
  · by_cases right : q = []
    · rw [right, child_nil, child_of_ne_nil left] at eq
      exact absurd (eq ▸ List.mem_append_right _ List.mem_cons_self) name'.2.2
    · have parts := congrArg (List.splitOn slash) eq
      rw [splitOn_child left, splitOn_child right] at parts
      obtain ⟨dirs, names⟩ := List.append_inj' parts rfl
      have front := congrArg (List.intercalate [slash]) dirs
      rw [List.intercalate_splitOn, List.intercalate_splitOn] at front
      exact ⟨front, Subtype.ext (List.cons.inj names).1⟩

theorem child_ne_nil (dir : Bytes) (name : Name) : child dir name ≠ [] := by
  by_cases filled : dir = []
  · rw [filled, child_nil]
    exact name.2.1
  · rw [child_of_ne_nil filled]
    exact List.append_ne_nil_of_right_ne_nil _ (List.cons_ne_nil _ _)

/-- A child has a longer path. -/
theorem length_child (dir : Bytes) (name : Name) : dir.length < (child dir name).length := by
  by_cases filled : dir = []
  · rw [filled, child_nil]
    exact List.length_pos_of_ne_nil name.2.1
  · rw [child_of_ne_nil filled, List.length_append, List.length_cons]
    omega

/-- A valid path: short, of valid names, not too many. -/
theorem isValidPath_iff_splitOn (filled : p ≠ []) : isValidPath p = true ↔
    p.length ≤ MAX_PATH_LENGTH ∧ (∀ name ∈ p.splitOn slash, isValidFileName name = true) ∧
      (p.splitOn slash).length ≤ MAX_PATH_DEPTH := by
  unfold isValidPath
  split
  · rename_i refused
    rw [Bool.or_eq_true, List.isEmpty_iff, decide_eq_true_eq] at refused
    refine iff_of_false Bool.false_ne_true fun valid => ?_
    exact absurd valid.1 (Nat.not_le.mpr (refused.resolve_left filled))
  · rename_i accepted
    rw [Bool.or_eq_true, not_or, decide_eq_true_eq, Nat.not_lt] at accepted
    dsimp only
    rw [Bool.and_eq_true, List.all_eq_true, decide_eq_true_eq, and_iff_right accepted.2]

theorem ne_nil_of_isValidPath (valid : isValidPath p = true) : p ≠ [] := by
  rintro rfl
  cases valid

/-- The directory of a valid path is the top or has a valid path itself. -/
theorem isValidPath_up (valid : isValidPath (child dir name) = true) :
    dir = [] ∨ isValidPath dir = true := by
  by_cases filled : dir = []
  · exact .inl filled
  · obtain ⟨short, each, shallow⟩ := (isValidPath_iff_splitOn (child_ne_nil dir name)).mp valid
    rw [splitOn_child filled] at each shallow
    rw [List.length_append, List.length_singleton] at shallow
    refine .inr ((isValidPath_iff_splitOn filled).mpr ⟨?_, fun n mem => ?_, by omega⟩)
    · exact Nat.le_of_lt (Nat.lt_of_lt_of_le (length_child dir name) short)
    · exact each n (List.mem_append_left _ mem)

theorem isValidFileName_of_isValidPath (valid : isValidPath (child dir name) = true) :
    isValidFileName name.1 = true := by
  obtain ⟨-, each, -⟩ := (isValidPath_iff_splitOn (child_ne_nil dir name)).mp valid
  refine each name.1 ?_
  by_cases filled : dir = []
  · rw [filled, child_nil, List.splitOn_eq_singleton name.2.2]
    exact List.mem_singleton_self _
  · rw [splitOn_child filled]
    exact List.mem_append_right _ (List.mem_singleton_self _)

/-- A valid path has a last name. -/
theorem exists_child (valid : isValidPath p = true) : ∃ dir name, p = child dir name := by
  obtain ⟨-, each, -⟩ := (isValidPath_iff_splitOn (ne_nil_of_isValidPath valid)).mp valid
  have some_ : p.splitOn slash ≠ [] := List.splitOn_ne_nil slash p
  have names : Walk.Names (p.splitOn slash) := each
  obtain ⟨front, last, eq⟩ := List.eq_nil_or_concat' (p.splitOn slash) |>.resolve_left some_
  have whole : Walk.path (front ++ [last]) = p := by
    rw [← eq, Walk.path_eq names some_, List.intercalate_splitOn]
  have plain := Walk.plain_of_valid
    (each last (eq ▸ List.mem_append_right _ (List.mem_singleton_self _)))
  exact ⟨Walk.path front, ⟨last, plain⟩, by rw [← whole, Walk.path_concat]; rfl⟩

/-- The relative paths of the watcher. -/
def paths : PathSystem Bytes Name where
  origin := []
  child := child
  Valid path := isValidPath path = true
  inj := child_inj
  apart := child_ne_nil
  up := isValidPath_up

/-- Induction over the valid paths and the root. -/
theorem path_induction {motive : Bytes → Prop} (nil : motive [])
    (child : ∀ dir name, isValidPath (child dir name) = true → (dir = [] ∨ isValidPath dir = true) →
      motive dir → motive (child dir name)) :
    ∀ path, (path = [] ∨ isValidPath path = true) → motive path := by
  intro path
  induction size : path.length using Nat.strongRecOn generalizing path with
  | ind size ih =>
    subst size
    rintro (rfl | valid)
    · exact nil
    · obtain ⟨dir, name, rfl⟩ := exists_child valid
      exact child dir name valid (isValidPath_up valid)
        (ih _ (length_child dir name) dir rfl (isValidPath_up valid))

/-- `is_inside` goes up one component at a time. -/
theorem isInside_child (filled : q ≠ []) (dir : Bytes) (name : Name) :
    isInside (child dir name) q = true ↔ child dir name = q ∨ isInside dir q = true := by
  simp only [isInside, Bool.or_eq_true, beq_iff_eq]
  refine or_congr_right ?_
  by_cases empty : dir = []
  · subst empty
    refine iff_of_false (fun cut => ?_) (by simp [filled.symm])
    have mem : slash ∈ (child [] name).take (q.length + 1) :=
      cut ▸ List.mem_append_right _ (List.mem_singleton_self _)
    exact name.2.2 (List.mem_of_mem_take mem)
  · rw [child_of_ne_nil empty, List.take_append]
    rcases Nat.lt_trichotomy q.length dir.length with short | same | long
    · have gap : q.length + 1 - dir.length = 0 := by omega
      rw [gap, List.take_zero, List.append_nil]
      refine (or_iff_right ?_).symm
      rintro rfl
      exact absurd short (Nat.lt_irrefl _)
    · have gap : q.length + 1 - dir.length = 1 := by omega
      have whole : dir.take (q.length + 1) = dir := List.take_of_length_le (by omega)
      rw [gap, whole, List.take_succ_cons, List.take_zero]
      constructor
      · exact fun eq => .inl (List.append_cancel_right eq)
      · rintro (rfl | eq)
        · rfl
        · have length := congrArg List.length eq
          rw [List.length_append, List.length_singleton] at length
          omega
    · obtain ⟨gap, size⟩ : ∃ n, q.length + 1 - dir.length = n + 2 :=
        ⟨q.length - dir.length - 1, by omega⟩
      have whole : dir.take (q.length + 1) = dir := List.take_of_length_le (by omega)
      rw [size, whole, List.take_succ_cons]
      refine iff_of_false (fun eq => ?_) ?_
      · -- The name that follows would have to end with a `/`.
        have ends := congrArg List.getLast? eq
        obtain ⟨c, rest, some_⟩ := List.exists_cons_of_ne_nil name.2.1
        rw [some_, List.take_succ_cons] at ends
        simp only [List.getLast?_append, List.getLast?_singleton, List.getLast?_cons_cons,
          Option.some_or] at ends
        have mem : slash ∈ name.1.take (gap + 1) := by
          rw [some_, List.take_succ_cons]
          exact List.mem_of_getLast? (by
            rw [Option.or_eq_some_iff] at ends
            exact ends.resolve_right fun both => by simp at both)
        exact name.2.2 (List.mem_of_mem_take mem)
      · rintro (rfl | eq)
        · exact absurd long (Nat.lt_irrefl _)
        · have length := congrArg List.length eq
          rw [List.length_append, List.length_singleton] at length
          omega

/-- `is_inside` is true of the path itself and of those below it. -/
theorem isInside_iff (valid : p = [] ∨ isValidPath p = true) (filled : q ≠ []) :
    isInside p q = true ↔ paths.Inside p q := by
  refine path_induction (motive := fun p => isInside p q = true ↔ paths.Inside p q) ?_ ?_ p valid
  · refine iff_of_false ?_ fun inside => filled (PathSystem.inside_origin_iff.mp inside)
    simpa [isInside] using filled
  · intro dir name _ _ ih
    rw [isInside_child filled, ih]
    exact (PathSystem.inside_child_iff (s := paths)).symm

end Paths

end SisOp.Watcher
