import SisOp.Lib.Map

/-!
# File trees over a hierarchy of paths

A `Hierarchy` is a type of paths in which every path has a chain of proper
ancestors. A `FileTree` is a finite set of nodes closed under ancestors: whatever
lies above a node is a directory, so a file never lies above another node. The
operations are the system calls a file store is made of (`mkdir`, `unlink`,
`rmdir`, and `rename` split into `place` and `rename`), each `none` when the
call fails, and the two sequences stores build from them: `put` (create the
ancestors, then move a file into place) and `delete` (unlink, then remove the
directories left empty).

`FileTree.file?` is the partial map of paths to files that a tree represents;
`file?_put` and `file?_delete` say how the two sequences act on it, and by
`free_iff_of_tight` the success of `put` is a fact about files alone when the tree is
`Tight` (it has no empty directory).
-/

set_option linter.unusedSectionVars false

namespace Lib

open Std

universe u v

/-- Paths with their proper ancestors, outermost first. -/
class Hierarchy (P : Type u) where
  ancestors : P → List P
  ancestors_getElem : ∀ (p : P) (i : Nat) (h : i < (ancestors p).length),
    ancestors (ancestors p)[i] = (ancestors p).take i

namespace Hierarchy

variable {P : Type u} [Hierarchy P] {p q r : P}

theorem exists_take_of_mem (mem : q ∈ ancestors p) :
    ∃ i, ∃ h : i < (ancestors p).length, (ancestors p)[i] = q ∧
      ancestors q = (ancestors p).take i := by
  obtain ⟨i, h, rfl⟩ := List.getElem_of_mem mem
  exact ⟨i, h, rfl, ancestors_getElem p i h⟩

theorem mem_trans (upper : r ∈ ancestors q) (lower : q ∈ ancestors p) : r ∈ ancestors p := by
  obtain ⟨i, h, -, chain⟩ := exists_take_of_mem lower
  rw [chain] at upper
  exact List.mem_of_mem_take upper

theorem length_lt_of_mem (mem : q ∈ ancestors p) :
    (ancestors q).length < (ancestors p).length := by
  obtain ⟨i, h, -, chain⟩ := exists_take_of_mem mem
  rw [chain, List.length_take]
  omega

theorem not_mem_self (p : P) : p ∉ ancestors p :=
  fun mem => Nat.lt_irrefl _ (length_lt_of_mem mem)

theorem ne_of_mem (mem : q ∈ ancestors p) : q ≠ p := by
  rintro rfl
  exact not_mem_self q mem

theorem not_mem_of_mem (mem : q ∈ ancestors p) : p ∉ ancestors q :=
  fun back => not_mem_self p (mem_trans back mem)

end Hierarchy

open Hierarchy

/-- What a path holds: a regular file, a directory, or anything else (a
symbolic link, a socket), which is never followed. -/
inductive Node (F : Type v) where
  | file (f : F)
  | dir
  | link
  deriving DecidableEq, Repr

/-- A finite tree: every ancestor of a node is a directory of the tree. -/
structure FileTree (P : Type u) (F : Type v) [Hierarchy P] [Ord P] [TransOrd P]
    [LawfulEqOrd P] where
  nodes : ExtTreeMap P (Node F)
  closed : ∀ p q, p ∈ nodes → q ∈ ancestors p → nodes[q]? = some .dir

namespace FileTree

variable {P : Type u} {F : Type v} [Hierarchy P] [Ord P] [TransOrd P] [LawfulEqOrd P]
  [DecidableEq P]

instance : EmptyCollection (FileTree P F) where
  emptyCollection := ⟨∅, fun p _ mem => (ExtTreeMap.not_mem_empty (k := p) mem).elim⟩

/-- The node at a path. -/
def node (t : FileTree P F) (p : P) : Option (Node F) := t.nodes[p]?

/-- The regular file at a path. -/
def file? (t : FileTree P F) (p : P) : Option F :=
  match t.node p with
  | some (.file f) => some f
  | _ => none

def isDir (t : FileTree P F) (p : P) : Bool :=
  match t.node p with
  | some .dir => true
  | _ => false

/-- Path resolution reaches the directory `p` lies in. -/
def resolves (t : FileTree P F) (p : P) : Bool := (ancestors p).all t.isDir

/-- The regular files with their paths, in path order. -/
def files (t : FileTree P F) : List (P × F) :=
  t.nodes.toList.filterMap fun entry =>
    match entry.2 with
    | .file f => some (entry.1, f)
    | _ => none

variable {t t' : FileTree P F} {p q d : P} {f : F}

@[simp] theorem node_empty (p : P) : (∅ : FileTree P F).node p = none :=
  ExtTreeMap.getElem?_empty

@[simp] theorem file?_empty (p : P) : (∅ : FileTree P F).file? p = none := by
  rw [file?, node_empty]

theorem ext_node (same : ∀ p, t.node p = t'.node p) : t = t' := by
  cases t
  cases t'
  congr 1
  exact ExtTreeMap.ext_getElem? same

theorem isDir_iff : t.isDir p = true ↔ t.node p = some .dir := by
  unfold isDir
  split <;> simp_all

theorem isDir_eq_false_iff : t.isDir p = false ↔ t.node p ≠ some .dir := by
  rw [ne_eq, ← isDir_iff, Bool.not_eq_true]

theorem file?_eq_some_iff : t.file? p = some f ↔ t.node p = some (.file f) := by
  unfold file?
  split <;> simp_all

theorem file?_eq_none_iff : t.file? p = none ↔ ∀ f, t.node p ≠ some (.file f) := by
  rw [← Option.not_isSome_iff_eq_none, Option.isSome_iff_exists]
  simp only [file?_eq_some_iff, not_exists, ne_eq]

theorem file?_congr (same : t.node p = t'.node p) : t.file? p = t'.file? p := by
  rw [file?, file?, same]

theorem resolves_iff : t.resolves p = true ↔ ∀ q ∈ ancestors p, t.node q = some .dir := by
  simp only [resolves, List.all_eq_true, isDir_iff]

/-- Whatever lies above a node is a directory. -/
theorem node_of_mem_ancestors (present : t.node p ≠ none) (mem : q ∈ ancestors p) :
    t.node q = some .dir :=
  t.closed p q (Map.mem_iff_ne_none.mpr present) mem

/-- Files are prefix-free: no file lies above another node. -/
theorem not_file_above (present : t.node p ≠ none) (mem : q ∈ ancestors p) :
    t.file? q = none := by
  rw [file?, node_of_mem_ancestors present mem]

/-- No two files lie one above the other. -/
theorem file?_above (present : t.file? p ≠ none) (mem : q ∈ ancestors p) : t.file? q = none :=
  not_file_above (fun absent => present (by rw [file?, absent])) mem

theorem file?_below (present : t.file? p ≠ none) (below : p ∈ ancestors q) : t.file? q = none := by
  by_contra lower
  exact present (file?_above lower below)

theorem mem_files_iff : (p, f) ∈ t.files ↔ t.file? p = some f := by
  rw [file?_eq_some_iff, node, ← ExtTreeMap.mem_toList_iff_getElem?_eq_some, files,
    List.mem_filterMap]
  constructor
  · rintro ⟨⟨p', n⟩, mem, hit⟩
    cases n with
    | file f' =>
      simp only [Option.some.injEq, Prod.mk.injEq] at hit
      obtain ⟨rfl, rfl⟩ := hit
      exact mem
    | dir => cases hit
    | link => cases hit
  · exact fun mem => ⟨(p, .file f), mem, rfl⟩

/-! ## System calls -/

/-- A node added below directories, not in place of one. -/
private def insert (t : FileTree P F) (p : P) (n : Node F) (resolved : t.resolves p = true)
    (vacant : t.isDir p = false) : FileTree P F where
  nodes := t.nodes.insert p n
  closed := by
    intro p' q mem above
    rw [resolves_iff] at resolved
    rw [isDir_eq_false_iff] at vacant
    rw [Map.getElem?_insert]
    rw [Map.mem_insert_iff] at mem
    split
    · subst q
      rcases mem with rfl | mem
      · exact (not_mem_self _ above).elim
      · exact (vacant (t.closed p' p mem above)).elim
    · rcases mem with rfl | mem
      · exact resolved q above
      · exact t.closed p' q mem above

private theorem node_insert {n : Node F} {resolved : t.resolves p = true}
    {vacant : t.isDir p = false} :
    (t.insert p n resolved vacant).node q = if q = p then some n else t.node q :=
  Map.getElem?_insert ..

/-- No node of the tree lies below `p`. -/
def childless (t : FileTree P F) (p : P) : Bool := t.nodes.keys.all fun q => p ∉ ancestors q

theorem childless_iff :
    t.childless p = true ↔ ∀ q, t.node q ≠ none → p ∉ ancestors q := by
  simp only [childless, List.all_eq_true, ExtTreeMap.mem_keys, decide_eq_true_eq, node,
    Map.mem_iff_ne_none]

private def erase (t : FileTree P F) (p : P) (below : t.childless p = true) : FileTree P F where
  nodes := t.nodes.erase p
  closed := by
    intro p' q mem above
    rw [Map.mem_erase_iff] at mem
    rw [Map.getElem?_erase, if_neg]
    · exact t.closed p' q mem.2 above
    · rintro rfl
      exact childless_iff.mp below p' (Map.mem_iff_ne_none.mp mem.2) above

private theorem node_erase {below : t.childless p = true} :
    (t.erase p below).node q = if q = p then none else t.node q :=
  Map.getElem?_erase ..

/-- `mkdir(2)`. -/
def mkdir (t : FileTree P F) (p : P) : Option (FileTree P F) :=
  if h : t.resolves p = true ∧ t.node p = none then
    some (t.insert p .dir h.1 (by rw [isDir_eq_false_iff, h.2]; nofun))
  else none

/-- `rename(2)` of a finished temporary file onto `p`, replacing any
non-directory. -/
def place (t : FileTree P F) (p : P) (f : F) : Option (FileTree P F) :=
  if h : t.resolves p = true ∧ t.isDir p = false then some (t.insert p (.file f) h.1 h.2)
  else none

private theorem childless_of_not_dir (notDir : t.isDir p = false) : t.childless p = true := by
  rw [childless_iff]
  intro q present above
  exact isDir_eq_false_iff.mp notDir (node_of_mem_ancestors present above)

/-- `unlink(2)`. -/
def unlink (t : FileTree P F) (p : P) : Option (FileTree P F) :=
  if h : t.node p ≠ none ∧ t.isDir p = false then some (t.erase p (childless_of_not_dir h.2))
  else none

/-- `rmdir(2)`, which only removes empty directories. -/
def rmdir (t : FileTree P F) (p : P) : Option (FileTree P F) :=
  if h : t.isDir p = true ∧ t.childless p = true then some (t.erase p h.2) else none

/-- `rename(2)` of the file at `p` to `q`. -/
def rename (t : FileTree P F) (p q : P) : Option (FileTree P F) :=
  match t.file? p with
  | some f =>
    if t.resolves q && !t.isDir q then (t.unlink p).bind fun t' => t'.place q f else none
  | none => none

theorem mkdir_eq_none_iff : t.mkdir p = none ↔ ¬(t.resolves p = true ∧ t.node p = none) := by
  unfold mkdir
  split <;> simp_all

theorem node_mkdir (made : t.mkdir p = some t') (q : P) :
    t'.node q = if q = p then some .dir else t.node q := by
  unfold mkdir at made
  split at made
  · cases made
    exact node_insert
  · cases made

theorem place_eq_none_iff : t.place p f = none ↔ ¬(t.resolves p = true ∧ t.isDir p = false) := by
  unfold place
  split <;> simp_all

theorem node_place (placed : t.place p f = some t') (q : P) :
    t'.node q = if q = p then some (.file f) else t.node q := by
  unfold place at placed
  split at placed
  · cases placed
    exact node_insert
  · cases placed

theorem unlink_eq_none_iff : t.unlink p = none ↔ ¬(t.node p ≠ none ∧ t.isDir p = false) := by
  unfold unlink
  split <;> simp_all

theorem node_unlink (removed : t.unlink p = some t') (q : P) :
    t'.node q = if q = p then none else t.node q := by
  unfold unlink at removed
  split at removed
  · cases removed
    exact node_erase
  · cases removed

theorem rmdir_eq_none_iff :
    t.rmdir p = none ↔ ¬(t.isDir p = true ∧ t.childless p = true) := by
  unfold rmdir
  split <;> simp_all

theorem isDir_of_rmdir (removed : t.rmdir p = some t') : t.node p = some .dir := by
  unfold rmdir at removed
  split at removed
  · rename_i h
    exact isDir_iff.mp h.1
  · cases removed

theorem node_rmdir (removed : t.rmdir p = some t') (q : P) :
    t'.node q = if q = p then none else t.node q := by
  unfold rmdir at removed
  split at removed
  · cases removed
    exact node_erase
  · cases removed

theorem file?_unlink (removed : t.unlink p = some t') (q : P) :
    t'.file? q = if q = p then none else t.file? q := by
  have at_q := node_unlink removed q
  split at at_q
  · rw [if_pos ‹q = p›, file?, at_q]
  · rw [if_neg ‹¬q = p›, file?_congr at_q]

theorem file?_place (placed : t.place p f = some t') (q : P) :
    t'.file? q = if q = p then some f else t.file? q := by
  have at_q := node_place placed q
  split at at_q
  · rw [if_pos ‹q = p›, file?, at_q]
  · rw [if_neg ‹¬q = p›, file?_congr at_q]

theorem resolves_of_mkdir (made : t.mkdir p = some t') :
    t.resolves p = true ∧ t.node p = none := by
  by_contra failed
  rw [← mkdir_eq_none_iff, made] at failed
  cases failed

theorem file?_mkdir (made : t.mkdir p = some t') (q : P) : t'.file? q = t.file? q := by
  have at_q := node_mkdir made q
  split at at_q
  · subst q
    rw [file?, file?, at_q, (resolves_of_mkdir made).2]
  · exact file?_congr at_q

theorem file?_rmdir (removed : t.rmdir p = some t') (q : P) : t'.file? q = t.file? q := by
  have at_q := node_rmdir removed q
  split at at_q
  · subst q
    rw [file?, file?, at_q, isDir_of_rmdir removed]
  · exact file?_congr at_q

/-- Only a file can be renamed. -/
theorem file_of_rename (moved : t.rename p q = some t') : ∃ f, t.file? p = some f := by
  unfold rename at moved
  split at moved
  · exact ⟨_, ‹_›⟩
  · cases moved

theorem node_rename {r : P} (file : t.file? p = some f) (moved : t.rename p q = some t') :
    t'.node r = if r = q then some (.file f) else if r = p then none else t.node r := by
  unfold rename at moved
  rw [file] at moved
  dsimp only at moved
  split at moved
  · obtain ⟨t₁, removed, placed⟩ := Option.bind_eq_some_iff.mp moved
    rw [node_place placed, node_unlink removed]
  · cases moved

/-- Renaming a file succeeds exactly when the new place resolves and is no
directory. -/
theorem rename_isSome (file : t.file? p = some f) (resolved : t.resolves q = true)
    (vacant : t.isDir q = false) : ∃ t', t.rename p q = some t' := by
  have at_p := file?_eq_some_iff.mp file
  obtain ⟨t₁, removed⟩ : ∃ t₁, t.unlink p = some t₁ := by
    rw [← Option.ne_none_iff_exists', ne_eq, unlink_eq_none_iff, not_not,
      isDir_eq_false_iff, at_p]
    exact ⟨nofun, nofun⟩
  have resolved₁ : t₁.resolves q = true := by
    rw [resolves_iff] at resolved ⊢
    intro r above
    rw [node_unlink removed, if_neg]
    · exact resolved r above
    · rintro rfl
      rw [resolved r above] at at_p
      cases at_p
  have vacant₁ : t₁.isDir q = false := by
    rw [isDir_eq_false_iff] at vacant ⊢
    rw [node_unlink removed]
    split
    · nofun
    · exact vacant
  obtain ⟨t₂, placed⟩ : ∃ t₂, t₁.place q f = some t₂ := by
    rw [← Option.ne_none_iff_exists', ne_eq, place_eq_none_iff, not_not]
    exact ⟨resolved₁, vacant₁⟩
  refine ⟨t₂, ?_⟩
  rw [rename, file]
  simp only [resolved, vacant, Bool.not_false, Bool.and_self, if_true, removed]
  exact placed

/-- A file can be renamed within its directory. -/
theorem rename_sibling (file : t.file? p = some f) (siblings : ancestors q = ancestors p)
    (vacant : t.node q ≠ some .dir) : ∃ t', t.rename p q = some t' := by
  refine rename_isSome file (resolves_iff.mpr fun r above => ?_) (isDir_eq_false_iff.mpr vacant)
  rw [siblings] at above
  refine node_of_mem_ancestors (p := p) ?_ above
  rw [file?_eq_some_iff.mp file]
  nofun

/-- What renaming a file does to the files of the tree. -/
theorem file?_rename (file : t.file? p = some f) (moved : t.rename p q = some t') (r : P) :
    t'.file? r = if r = q then some f else if r = p then none else t.file? r := by
  have at_r := node_rename (r := r) file moved
  split at at_r
  · rw [if_pos ‹r = q›, FileTree.file?, at_r]
  · rw [if_neg ‹¬r = q›]
    split at at_r
    · rw [if_pos ‹r = p›, FileTree.file?, at_r]
    · rw [if_neg ‹¬r = p›]
      exact file?_congr at_r

/-! ## Creating the directories above a path -/

/-- `mkdir` of each directory in turn; one that exists is no error. -/
def mkdirs (t : FileTree P F) : List P → FileTree P F × Bool
  | [] => (t, true)
  | d :: ds =>
    match t.mkdir d with
    | some t' => mkdirs t' ds
    | none => if (t.node d).isSome then mkdirs t ds else (t, false)

/-- `mkdirs`, then a check that the last one is a directory. -/
def makeDirs (t : FileTree P F) (ds : List P) : FileTree P F × Bool :=
  let made := t.mkdirs ds
  (made.1, made.2 && ds.getLast?.all made.1.isDir)

theorem file?_mkdirs (ds : List P) (q : P) : (t.mkdirs ds).1.file? q = t.file? q := by
  induction ds generalizing t with
  | nil => rfl
  | cons d ds ih =>
    rw [mkdirs]
    cases made : t.mkdir d with
    | some t' => exact ih.trans (file?_mkdir made q)
    | none =>
      dsimp only
      split
      · exact ih
      · rfl

/-- Nothing but directories lies above `p`. -/
def Clear (t : FileTree P F) (p : P) : Prop :=
  ∀ q ∈ ancestors p, t.node q = none ∨ t.node q = some .dir

theorem clear_of_present (present : t.node p ≠ none) : t.Clear p :=
  fun _ above => .inr (node_of_mem_ancestors present above)

theorem node_none_of_above (absent : t.node q = none) (above : q ∈ ancestors p) :
    t.node p = none := by
  by_contra present
  rw [node_of_mem_ancestors present above] at absent
  cases absent

/-- Below a missing directory every `mkdir` of the chain succeeds. -/
private theorem mkdirs_of_missing {k : Nat} {ds : List P} (chain : (ancestors p).drop k = ds)
    (above : ∀ q ∈ (ancestors p).take k, t.node q = some .dir)
    (missing : ∀ q ∈ ds, t.node q = none) :
    ∃ t', t.mkdirs ds = (t', true) ∧
      ∀ q, t'.node q = if q ∈ ds then some .dir else t.node q := by
  induction ds generalizing k t with
  | nil => exact ⟨t, rfl, fun q => by simp⟩
  | cons d ds ih =>
    obtain ⟨inRange, here⟩ : ∃ h : k < (ancestors p).length, (ancestors p)[k] = d := by
      have head := congrArg List.head? chain
      rw [List.head?_drop, List.head?_cons] at head
      exact List.getElem?_eq_some_iff.mp head
    have resolved : t.resolves d = true := by
      rw [resolves_iff, ← here, ancestors_getElem p k inRange]
      exact above
    obtain ⟨t₁, made⟩ : ∃ t₁, t.mkdir d = some t₁ := by
      rw [← Option.ne_none_iff_exists', ne_eq, mkdir_eq_none_iff, not_not]
      exact ⟨resolved, missing d List.mem_cons_self⟩
    have chain₁ : (ancestors p).drop (k + 1) = ds := by
      rw [← List.drop_drop, chain, List.drop_one, List.tail_cons]
    have distinct : ∀ q ∈ ds, q ≠ d := by
      rintro q mem rfl
      rw [← chain₁] at mem
      obtain ⟨i, hi, eq⟩ := List.mem_iff_getElem.mp mem
      rw [List.getElem_drop] at eq
      rw [List.length_drop] at hi
      have shorter := ancestors_getElem p k inRange
      have longer := ancestors_getElem p (k + 1 + i) (by omega)
      rw [eq] at longer
      rw [here] at shorter
      have lengths := congrArg List.length (shorter.symm.trans longer)
      rw [List.length_take, List.length_take] at lengths
      omega
    have above₁ : ∀ q ∈ (ancestors p).take (k + 1), t₁.node q = some .dir := by
      intro q mem
      rw [node_mkdir made]
      split
      · rfl
      · rw [List.take_add_one, List.getElem?_eq_getElem inRange, here] at mem
        rcases List.mem_append.mp mem with earlier | last
        · exact above q earlier
        · exact (‹¬q = d› (by simpa using last)).elim
    have missing₁ : ∀ q ∈ ds, t₁.node q = none := by
      intro q mem
      rw [node_mkdir made, if_neg (distinct q mem)]
      exact missing q (List.mem_cons_of_mem _ mem)
    obtain ⟨t₂, eq, nodes⟩ := ih chain₁ above₁ missing₁
    refine ⟨t₂, by rw [mkdirs, made]; exact eq, fun q => ?_⟩
    rw [nodes, node_mkdir made]
    by_cases later : q ∈ ds
    · rw [if_pos later, if_pos (List.mem_cons_of_mem _ later)]
    · rw [if_neg later]
      simp only [List.mem_cons, later, or_false]

/-- A directory of the chain from `k` on lies above the later ones. -/
private theorem mem_ancestors_of_chain {k : Nat} {ds : List P}
    (chain : (ancestors p).drop k = d :: ds) (mem : q ∈ ds) : d ∈ ancestors q := by
  have chain₁ : (ancestors p).drop (k + 1) = ds := by
    rw [← List.drop_drop, chain, List.drop_one, List.tail_cons]
  obtain ⟨inRange, here⟩ : ∃ h : k < (ancestors p).length, (ancestors p)[k] = d := by
    have head := congrArg List.head? chain
    rw [List.head?_drop, List.head?_cons] at head
    exact List.getElem?_eq_some_iff.mp head
  rw [← chain₁] at mem
  obtain ⟨i, hi, rfl⟩ := List.mem_iff_getElem.mp mem
  rw [List.length_drop] at hi
  rw [List.getElem_drop, ancestors_getElem p (k + 1 + i) (by omega)]
  exact List.mem_take_iff_getElem.mpr ⟨k, by omega, here⟩

private theorem mkdirs_of_clear {k : Nat} {ds : List P} (chain : (ancestors p).drop k = ds)
    (above : ∀ q ∈ (ancestors p).take k, t.node q = some .dir)
    (clear : ∀ q ∈ ds, t.node q = none ∨ t.node q = some .dir) :
    ∃ t', t.mkdirs ds = (t', true) ∧
      ∀ q, t'.node q = if q ∈ ds then some .dir else t.node q := by
  induction ds generalizing k t with
  | nil => exact ⟨t, rfl, fun q => by simp⟩
  | cons d ds ih =>
    rcases clear d List.mem_cons_self with absent | present
    · refine mkdirs_of_missing chain above fun q mem => ?_
      rcases List.mem_cons.mp mem with rfl | later
      · exact absent
      · exact node_none_of_above absent (mem_ancestors_of_chain chain later)
    · have exists_ : t.mkdir d = none := by
        rw [mkdir_eq_none_iff, present]
        nofun
      have chain₁ : (ancestors p).drop (k + 1) = ds := by
        rw [← List.drop_drop, chain, List.drop_one, List.tail_cons]
      have above₁ : ∀ q ∈ (ancestors p).take (k + 1), t.node q = some .dir := by
        intro q mem
        rw [List.take_add_one, ← List.head?_drop, chain] at mem
        rcases List.mem_append.mp mem with earlier | last
        · exact above q earlier
        · simp only [List.head?_cons, Option.toList_some, List.mem_singleton] at last
          rw [last, present]
      obtain ⟨t', eq, nodes⟩ :=
        ih chain₁ above₁ fun q mem => clear q (List.mem_cons_of_mem _ mem)
      refine ⟨t', by simp only [mkdirs, exists_, present, Option.isSome_some, if_true, eq],
        fun q => ?_⟩
      rw [nodes]
      by_cases later : q ∈ ds
      · rw [if_pos later, if_pos (List.mem_cons_of_mem _ later)]
      · by_cases same : q = d
        · subst q
          rw [if_neg later, if_pos List.mem_cons_self, present]
        · simp only [List.mem_cons, later, same, or_self]

private theorem mkdirs_of_blocked {k : Nat} {ds : List P} (chain : (ancestors p).drop k = ds)
    (blocked : ∃ q ∈ ds, t.node q ≠ none ∧ t.node q ≠ some .dir) :
    t.mkdirs ds = (t, false) ∨
      t.mkdirs ds = (t, true) ∧ ∃ d, ds.getLast? = some d ∧ t.isDir d = false := by
  induction ds generalizing k with
  | nil =>
    obtain ⟨q, mem, -⟩ := blocked
    cases mem
  | cons d ds ih =>
    have chain₁ : (ancestors p).drop (k + 1) = ds := by
      rw [← List.drop_drop, chain, List.drop_one, List.tail_cons]
    obtain ⟨b, mem, present, notDir⟩ := blocked
    have dPresent : t.node d ≠ none := by
      intro absent
      rcases List.mem_cons.mp mem with rfl | later
      · exact present absent
      · exact present (node_none_of_above absent (mem_ancestors_of_chain chain later))
    have exists_ : t.mkdir d = none := by
      rw [mkdir_eq_none_iff]
      exact fun both => dPresent both.2
    have reduce : t.mkdirs (d :: ds) = t.mkdirs ds := by
      simp only [mkdirs, exists_, Option.isSome_iff_ne_none.mpr dPresent, if_true]
    rw [reduce]
    by_cases dDir : t.node d = some .dir
    · have later : b ∈ ds := by
        rcases List.mem_cons.mp mem with rfl | later
        · exact (notDir dDir).elim
        · exact later
      rcases ih chain₁ ⟨b, later, present, notDir⟩ with failed | ⟨passed, e, last, eNotDir⟩
      · exact .inl failed
      · refine .inr ⟨passed, e, ?_, eNotDir⟩
        rw [List.getLast?_cons, last, Option.getD_some]
    · cases ds with
      | nil => exact .inr ⟨rfl, d, rfl, isDir_eq_false_iff.mpr dDir⟩
      | cons e es =>
        left
        have above := mem_ancestors_of_chain chain (List.mem_cons_self (a := e) (l := es))
        have eAbsent : t.node e = none := by
          by_contra ePresent
          exact dDir (node_of_mem_ancestors ePresent above)
        have failed : t.mkdir e = none := by
          rw [mkdir_eq_none_iff, resolves_iff]
          exact fun both => dDir (both.1 d above)
        simp only [mkdirs, failed, eAbsent, Option.isSome_none, Bool.false_eq_true, if_false]

/-- Over a clear path the missing ancestors are created and nothing else
changes. -/
theorem makeDirs_of_clear (clear : t.Clear p) :
    ∃ t', t.makeDirs (ancestors p) = (t', true) ∧
      ∀ q, t'.node q = if q ∈ ancestors p then some .dir else t.node q := by
  obtain ⟨t', eq, nodes⟩ :=
    mkdirs_of_clear (List.drop_zero : (ancestors p).drop 0 = ancestors p) (by simp) clear
  refine ⟨t', ?_, nodes⟩
  have lastDir : (ancestors p).getLast?.all t'.isDir = true := by
    cases last : (ancestors p).getLast? with
    | none => rfl
    | some d =>
      rw [Option.all_some, isDir_iff, nodes, if_pos (List.mem_of_getLast? last)]
  simp only [makeDirs, eq, lastDir, Bool.and_self]

/-- When something other than a directory lies above the path, nothing is
created. -/
theorem makeDirs_of_not_clear (blocked : ¬t.Clear p) :
    t.makeDirs (ancestors p) = (t, false) := by
  have witness : ∃ q ∈ ancestors p, t.node q ≠ none ∧ t.node q ≠ some .dir := by
    simpa only [Clear, not_forall, not_or, exists_prop] using blocked
  rcases mkdirs_of_blocked (List.drop_zero : (ancestors p).drop 0 = ancestors p) witness with
    failed | ⟨passed, d, last, notDir⟩
  · simp only [makeDirs, failed, Bool.false_and]
  · simp only [makeDirs, passed, last, Option.all_some, notDir, Bool.and_false]

/-! ## Storing and deleting one file -/

/-- Create the directories above `p`, then move a finished file there. -/
def put (t : FileTree P F) (p : P) (f : F) : FileTree P F × Bool :=
  let made := t.makeDirs (ancestors p)
  if made.2 then
    match made.1.place p f with
    | some t' => (t', true)
    | none => (made.1, false)
  else (made.1, false)

/-- `rmdir` of each directory in turn, stopping at the first that is not empty. -/
def rmdirs (t : FileTree P F) : List P → FileTree P F
  | [] => t
  | d :: ds =>
    match t.rmdir d with
    | some t' => rmdirs t' ds
    | none => t

/-- Unlink `p`, then remove the directories above it that this leaves empty. -/
def delete (t : FileTree P F) (p : P) : FileTree P F × Bool :=
  match t.unlink p with
  | some t' => (t'.rmdirs (ancestors p).reverse, true)
  | none => (t, false)

/-- A file can be stored at `p`: only directories lie above it, and it is none
itself. -/
def Free (t : FileTree P F) (p : P) : Prop := t.Clear p ∧ t.node p ≠ some .dir

/-- Storing a file at a free path succeeds and changes no other file. -/
theorem put_of_free (free : t.Free p) (f : F) :
    ∃ t', t.put p f = (t', true) ∧ ∀ q, t'.node q =
      if q = p then some (.file f) else if q ∈ ancestors p then some .dir else t.node q := by
  obtain ⟨t₁, made, nodes₁⟩ := makeDirs_of_clear free.1
  have placeable : t₁.resolves p = true ∧ t₁.isDir p = false := by
    rw [resolves_iff, isDir_eq_false_iff]
    refine ⟨fun q above => by rw [nodes₁, if_pos above], ?_⟩
    rw [nodes₁, if_neg (not_mem_self p)]
    exact free.2
  obtain ⟨t₂, placed⟩ : ∃ t₂, t₁.place p f = some t₂ := by
    rw [← Option.ne_none_iff_exists', ne_eq, place_eq_none_iff, not_not]
    exact placeable
  refine ⟨t₂, by simp only [put, made, placed, if_true], fun q => ?_⟩
  rw [node_place placed, nodes₁]

/-- Storing a file at a path that is not free changes nothing. -/
theorem put_of_not_free (blocked : ¬t.Free p) (f : F) : t.put p f = (t, false) := by
  by_cases clear : t.Clear p
  · have dir : t.node p = some .dir := by
      by_contra notDir
      exact blocked ⟨clear, notDir⟩
    obtain ⟨t₁, made, nodes₁⟩ := makeDirs_of_clear clear
    have same : t₁ = t := by
      refine ext_node fun q => ?_
      rw [nodes₁]
      split
      · exact (node_of_mem_ancestors (by rw [dir]; nofun) ‹q ∈ ancestors p›).symm
      · rfl
    subst t₁
    have failed : t.place p f = none := by
      rw [place_eq_none_iff, isDir_iff.mpr dir]
      nofun
    simp only [put, made, failed, if_true]
  · simp only [put, makeDirs_of_not_clear clear, Bool.false_eq_true, if_false]

theorem put_ok_iff : (t.put p f).2 = true ↔ t.Free p := by
  constructor
  · intro ok
    by_contra blocked
    rw [put_of_not_free blocked] at ok
    cases ok
  · intro free
    obtain ⟨t', eq, -⟩ := put_of_free free f
    rw [eq]

/-- A file can be replaced. -/
theorem free_of_file {g : F} (present : t.file? p = some g) : t.Free p := by
  have node := file?_eq_some_iff.mp present
  refine ⟨clear_of_present ?_, ?_⟩ <;> rw [node] <;> nofun

theorem put_of_fail (failed : (t.put p f).2 = false) : (t.put p f).1 = t := by
  have blocked : ¬t.Free p := fun free => by
    rw [put_ok_iff.mpr free] at failed
    cases failed
  rw [put_of_not_free blocked]

/-- What storing a file does to the files of the tree. -/
theorem file?_put (ok : (t.put p f).2 = true) (q : P) :
    (t.put p f).1.file? q = if q = p then some f else t.file? q := by
  have free := put_ok_iff.mp ok
  obtain ⟨t', eq, nodes⟩ := put_of_free free f
  rw [eq]
  have at_q := nodes q
  split at at_q
  · rw [if_pos ‹q = p›, file?, at_q]
  · rw [if_neg ‹¬q = p›]
    split at at_q
    · rename_i above
      rw [file?, at_q, eq_comm, file?_eq_none_iff]
      intro g present
      rcases free.1 q above with absent | dir
      · rw [absent] at present
        cases present
      · rw [dir] at present
        cases present
    · exact file?_congr at_q

/-- Storing a file, whether it goes through or not, changes no other file. -/
theorem file?_put_of_ne (t : FileTree P F) (f : F) (other : q ≠ p) :
    (t.put p f).1.file? q = t.file? q := by
  cases ok : (t.put p f).2 with
  | true => rw [file?_put ok, if_neg other]
  | false => rw [put_of_fail ok]

/-- What a node can become when a file is stored. -/
theorem node_put (t : FileTree P F) (p : P) (f : F) (q : P) :
    (t.put p f).1.node q = t.node q ∨ q = p ∧ (t.put p f).1.node q = some (.file f) ∨
      q ∈ ancestors p ∧ (t.put p f).1.node q = some .dir := by
  by_cases free : t.Free p
  · obtain ⟨t', eq, nodes⟩ := put_of_free free f
    rw [eq]
    have at_q := nodes q
    split at at_q
    · exact .inr (.inl ⟨‹q = p›, at_q⟩)
    · split at at_q
      · exact .inr (.inr ⟨‹q ∈ ancestors p›, at_q⟩)
      · exact .inl at_q
  · rw [put_of_not_free free]
    exact .inl rfl

theorem file?_rmdirs (ds : List P) (q : P) : (t.rmdirs ds).file? q = t.file? q := by
  induction ds generalizing t with
  | nil => rfl
  | cons d ds ih =>
    rw [rmdirs]
    split
    · rename_i removed
      rw [ih, file?_rmdir removed]
    · rfl

theorem delete_ok_iff : (t.delete p).2 = true ↔ t.node p ≠ none ∧ t.isDir p = false := by
  unfold delete
  split
  · rename_i removed
    simp only [true_iff]
    by_contra failed
    rw [← unlink_eq_none_iff, removed] at failed
    cases failed
  · rename_i failed
    rw [unlink_eq_none_iff] at failed
    simp only [Bool.false_eq_true, false_iff]
    exact failed

theorem delete_of_fail (failed : (t.delete p).2 = false) : (t.delete p).1 = t := by
  unfold delete at failed ⊢
  split <;> simp_all

/-- What deleting does to the files of the tree. -/
theorem file?_delete (t : FileTree P F) (p q : P) :
    (t.delete p).1.file? q = if q = p then none else t.file? q := by
  unfold delete
  split
  · rename_i removed
    rw [file?_rmdirs, file?_unlink removed]
  · rename_i failed
    split
    · subst q
      rw [file?_eq_none_iff]
      intro f present
      rw [unlink_eq_none_iff, isDir_eq_false_iff, present] at failed
      exact failed ⟨nofun, nofun⟩
    · rfl

/-! ## Trees without empty directories -/

/-- Every directory of the tree has a file below it. -/
def Tight (t : FileTree P F) : Prop :=
  ∀ d, t.node d = some .dir → ∃ q f, d ∈ ancestors q ∧ t.file? q = some f

/-- Nothing but regular files and directories. -/
def Plain (t : FileTree P F) : Prop := ∀ p, t.node p ≠ some .link

theorem tight_empty : (∅ : FileTree P F).Tight := by
  intro d dir
  rw [node_empty] at dir
  cases dir

theorem plain_empty : (∅ : FileTree P F).Plain := by
  intro p link
  rw [node_empty] at link
  cases link

/-- In a tight tree the paths a file can go to are those that neither contain
nor lie below another file. -/
theorem free_iff_of_tight (tight : t.Tight) (plain : t.Plain) :
    t.Free p ↔ (∀ q ∈ ancestors p, t.file? q = none) ∧
      ∀ q, p ∈ ancestors q → t.file? q = none := by
  constructor
  · rintro ⟨clear, notDir⟩
    constructor
    · intro q above
      rw [file?_eq_none_iff]
      intro f present
      rcases clear q above with absent | dir
      · rw [absent] at present
        cases present
      · rw [dir] at present
        cases present
    · intro q below
      by_contra present
      refine notDir (node_of_mem_ancestors (fun absent => present ?_) below)
      rw [file?, absent]
  · rintro ⟨noneAbove, noneBelow⟩
    constructor
    · intro q above
      have noFile := file?_eq_none_iff.mp (noneAbove q above)
      cases node : t.node q with
      | none => exact .inl rfl
      | some n =>
        cases n with
        | file f => exact (noFile f node).elim
        | dir => exact .inr rfl
        | link => exact (plain q node).elim
    · intro dir
      obtain ⟨q, f, below, present⟩ := tight p dir
      rw [noneBelow q below] at present
      cases present

theorem Plain.put (plain : t.Plain) (p : P) (f : F) : (t.put p f).1.Plain := by
  by_cases free : t.Free p
  · obtain ⟨t', eq, nodes⟩ := put_of_free free f
    rw [eq]
    intro q
    rw [nodes]
    split
    · nofun
    · split
      · nofun
      · exact plain q
  · rw [put_of_not_free free]
    exact plain

theorem Tight.put (tight : t.Tight) (p : P) (f : F) : (t.put p f).1.Tight := by
  by_cases free : t.Free p
  · have ok : (t.put p f).2 = true := put_ok_iff.mpr free
    have files := file?_put ok
    obtain ⟨t', eq, nodes⟩ := put_of_free free f
    intro d dir
    rw [eq, nodes] at dir
    split at dir
    · cases dir
    split at dir
    · rename_i above
      exact ⟨p, f, above, by rw [files, if_pos rfl]⟩
    · obtain ⟨q, g, below, present⟩ := tight d dir
      by_cases same : q = p
      · exact ⟨p, f, same ▸ below, by rw [files, if_pos rfl]⟩
      · exact ⟨q, g, below, by rw [files, if_neg same]; exact present⟩
  · rw [put_of_not_free free]
    exact tight

theorem Plain.rename (plain : t.Plain) (moved : t.rename p q = some t') : t'.Plain := by
  obtain ⟨f, file⟩ := file_of_rename moved
  intro r
  rw [node_rename file moved]
  split
  · nofun
  · split
    · nofun
    · exact plain r

/-- Renaming a file within its directory empties no directory. -/
theorem Tight.rename (tight : t.Tight) (siblings : ancestors q = ancestors p)
    (moved : t.rename p q = some t') : t'.Tight := by
  obtain ⟨f, file⟩ := file_of_rename moved
  have files := file?_rename file moved
  intro d dir
  rw [node_rename file moved] at dir
  split at dir
  · cases dir
  split at dir
  · cases dir
  obtain ⟨r, g, below, present⟩ := tight d dir
  by_cases source : r = p
  · exact ⟨q, f, by rw [siblings, ← source]; exact below, by rw [files, if_pos rfl]⟩
  by_cases target : r = q
  · exact ⟨r, f, below, by rw [files, if_pos target]⟩
  · exact ⟨r, g, below, by rw [files, if_neg target, if_neg source]; exact present⟩

theorem Plain.rmdirs (plain : t.Plain) (ds : List P) : (t.rmdirs ds).Plain := by
  induction ds generalizing t with
  | nil => exact plain
  | cons d ds ih =>
    rw [FileTree.rmdirs]
    split
    · rename_i t' removed
      refine ih fun q => ?_
      rw [node_rmdir removed]
      split
      · nofun
      · exact plain q
    · exact plain

theorem Plain.delete (plain : t.Plain) (p : P) : (t.delete p).1.Plain := by
  unfold FileTree.delete
  split
  · rename_i t' removed
    refine Plain.rmdirs (fun q => ?_) _
    rw [node_unlink removed]
    split
    · nofun
    · exact plain q
  · exact plain

/-- A directory that is not childless has a file below it, when every deeper
directory has one. -/
private theorem file_below_of_not_childless {here : P} (plain : t.Plain)
    (tight : ∀ d, t.node d = some .dir → here ∈ ancestors d →
      ∃ q f, d ∈ ancestors q ∧ t.file? q = some f)
    (occupied : t.childless here ≠ true) : ∃ q f, here ∈ ancestors q ∧ t.file? q = some f := by
  rw [ne_eq, childless_iff] at occupied
  obtain ⟨q, present, below⟩ : ∃ q, t.node q ≠ none ∧ here ∈ ancestors q := by
    simpa only [not_forall, not_not, exists_prop] using occupied
  cases node : t.node q with
  | none => exact (present node).elim
  | some n =>
    cases n with
    | file f => exact ⟨q, f, below, file?_eq_some_iff.mpr node⟩
    | dir =>
      obtain ⟨r, f, deeper, file⟩ := tight q node below
      exact ⟨r, f, mem_trans below deeper, file⟩
    | link => exact (plain q node).elim

/-- When only the first `k` directories above `p` can be empty, removing them
nearest first leaves no empty directory. -/
private theorem tight_rmdirs {k : Nat}
    (dirs : ∀ d ∈ (ancestors p).take k, t.node d = some .dir)
    (tight : ∀ d, t.node d = some .dir → d ∉ (ancestors p).take k →
      ∃ q f, d ∈ ancestors q ∧ t.file? q = some f) (plain : t.Plain) :
    (t.rmdirs ((ancestors p).take k).reverse).Tight := by
  induction k generalizing t with
  | zero => exact fun d dir => tight d dir (by simp)
  | succ k ih =>
    by_cases inRange : k < (ancestors p).length
    case neg =>
      have all : (ancestors p).take (k + 1) = (ancestors p).take k := by
        rw [List.take_of_length_le (by omega), List.take_of_length_le (by omega)]
      rw [all] at dirs tight ⊢
      exact ih dirs tight plain
    have here := ancestors_getElem p k inRange
    have take_succ : (ancestors p).take (k + 1) =
        ancestors (ancestors p)[k] ++ [(ancestors p)[k]] := by
      rw [List.take_add_one, List.getElem?_eq_getElem inRange, Option.toList_some, here]
    rw [take_succ] at dirs tight ⊢
    rw [List.reverse_append, List.reverse_singleton, List.singleton_append, FileTree.rmdirs]
    split
    · rename_i t' removed
      rw [here] at dirs tight ⊢
      refine ih (fun d mem => ?_) (fun d dir notEarlier => ?_) fun q => ?_
      · rw [node_rmdir removed, if_neg]
        · exact dirs d (List.mem_append_left _ mem)
        · rw [← here] at mem
          exact ne_of_mem mem
      · rw [node_rmdir removed] at dir
        split at dir
        · cases dir
        · obtain ⟨q, f, below, present⟩ := tight d dir (by
            rw [List.mem_append, List.mem_singleton]
            exact fun mem => mem.elim notEarlier ‹_›)
          exact ⟨q, f, below, by rw [file?_rmdir removed]; exact present⟩
      · rw [node_rmdir removed]
        split
        · nofun
        · exact plain q
    · rename_i failed
      have hereDir := dirs (ancestors p)[k] (List.mem_append_right _ (List.mem_singleton_self _))
      rw [rmdir_eq_none_iff, isDir_iff, hereDir, not_and] at failed
      obtain ⟨q, f, below, present⟩ :=
        file_below_of_not_childless plain (fun d dir deeper => tight d dir fun mem => by
          rcases List.mem_append.mp mem with above | same
          · exact not_mem_of_mem above deeper
          · exact not_mem_self _ (List.mem_singleton.mp same ▸ deeper)) (failed rfl)
      intro d dir
      by_cases later : d ∈ ancestors (ancestors p)[k] ++ [(ancestors p)[k]]
      · -- `d` is at or above the directory whose removal failed
        rcases List.mem_append.mp later with above | same
        · exact ⟨q, f, mem_trans above below, present⟩
        · exact ⟨q, f, List.mem_singleton.mp same ▸ below, present⟩
      · exact tight d dir later

theorem Tight.delete (tight : t.Tight) (plain : t.Plain) (p : P) : (t.delete p).1.Tight := by
  unfold FileTree.delete
  split
  · rename_i t' removed
    have present : t.node p ≠ none := by
      intro absent
      have failed : t.unlink p = none := by
        rw [unlink_eq_none_iff, absent]
        exact fun both => both.1 rfl
      rw [failed] at removed
      cases removed
    have whole : (ancestors p).take (ancestors p).length = ancestors p := List.take_length
    rw [← whole]
    refine tight_rmdirs (fun d mem => ?_) (fun d dir notAbove => ?_) fun q => ?_
    · rw [whole] at mem
      rw [node_unlink removed, if_neg (ne_of_mem mem)]
      exact node_of_mem_ancestors present mem
    · rw [whole] at notAbove
      rw [node_unlink removed] at dir
      split at dir
      · cases dir
      · obtain ⟨q, f, below, file⟩ := tight d dir
        refine ⟨q, f, below, ?_⟩
        rw [file?_unlink removed, if_neg]
        · exact file
        · rintro rfl
          exact notAbove below
    · rw [node_unlink removed]
      split
      · nofun
      · exact plain q
  · exact tight

end FileTree

end Lib
