import SisOp.Lib.FileTree

/-!
# Walking a file tree

The recursive listing of a directory tree: each directory is entered, its
entries are visited one by one, and directories among them are walked down to a
given depth. `enter` and `visit` say which calls succeed and which entries are
looked at. `mem_walk_iff` says which files are found.
-/

set_option linter.unusedSectionVars false

namespace Lib.FileTree

open Std Hierarchy

universe u v

variable {P : Type u} {F : Type v} [Hierarchy P] [Ord P] [TransOrd P] [LawfulEqOrd P]
  [DecidableEq P]

/-- The directory a path lies in, `none` being the root. -/
def parent (p : P) : Option P := (ancestors p).getLast?

/-- The entries of a directory. -/
def children (t : FileTree P F) (dir : Option P) : List P :=
  t.nodes.keys.filter fun p => parent p = dir

/-- What the walk finds at an entry; `below` is the walk of a directory. -/
def visited (t : FileTree P F) (visit : P → Bool) (below : P → List P) (p : P) : List P :=
  if visit p then
    match t.node p with
    | some .dir => below p
    | some (.file _) => [p]
    | _ => []
  else []

/-- The files below a directory, `depth` levels of directories down. -/
def walk (t : FileTree P F) (enter : Option P → Bool) (visit : P → Bool) :
    Nat → Option P → List P
  | 0, dir => if enter dir then (t.children dir).flatMap (t.visited visit fun _ => []) else []
  | depth + 1, dir =>
    if enter dir then
      (t.children dir).flatMap (t.visited visit fun p => t.walk enter visit depth (some p))
    else []

/-- The directories that lead to the entries of a directory. -/
def trail : Option P → List P
  | none => []
  | some d => ancestors d ++ [d]

variable {t : FileTree P F} {enter : Option P → Bool} {visit : P → Bool} {p q : P}
  {dir : Option P}

theorem parent_eq_iff : parent p = dir ↔ ancestors p = trail dir := by
  cases dir with
  | none => exact List.getLast?_eq_none_iff
  | some d =>
    constructor
    · intro last
      obtain ⟨front, eq⟩ := List.getLast?_eq_some_iff.mp last
      have bound : front.length < (ancestors p).length := by
        rw [eq, List.length_append, List.length_singleton]
        omega
      have chain := ancestors_getElem p front.length bound
      have here : (ancestors p)[front.length] = d := by simp only [eq, List.getElem_concat_length]
      rw [here, eq, List.take_left] at chain
      rw [eq, trail, chain]
    · intro eq
      rw [parent, eq, trail, List.getLast?_concat]

/-- A path below a directory is one of its entries or below one of them. -/
theorem entry_or_below (below : (ancestors p).take (trail dir).length = trail dir) :
    ancestors p = trail dir ∨ ∃ c ∈ ancestors p, ancestors c = trail dir := by
  rcases Nat.lt_or_ge (trail dir).length (ancestors p).length with longer | shorter
  · right
    refine ⟨_, List.getElem_mem longer, ?_⟩
    rw [ancestors_getElem p _ longer, below]
  · left
    rw [← below, List.take_of_length_le shorter]

/-- The way to a path goes through each directory above it. -/
theorem take_trail (above : q ∈ ancestors p) :
    (ancestors p).take (trail (some q)).length = trail (some q) := by
  obtain ⟨k, bound, here⟩ := List.mem_iff_getElem.mp above
  have upper := ancestors_getElem p k bound
  rw [here] at upper
  have length : (trail (some q)).length = k + 1 := by
    rw [trail, upper, List.length_append, List.length_take, List.length_singleton,
      Nat.min_eq_left (Nat.le_of_lt bound)]
  rw [length, List.take_succ_eq_append_getElem bound, here, ← upper, trail]

theorem mem_children_iff : p ∈ t.children dir ↔ t.node p ≠ none ∧ ancestors p = trail dir := by
  rw [children, List.mem_filter, decide_eq_true_eq, parent_eq_iff, ExtTreeMap.mem_keys,
    Map.mem_iff_ne_none, node]

theorem mem_visited_iff {below : P → List P} :
    q ∈ t.visited visit below p ↔ visit p = true ∧
      (t.node p = some .dir ∧ q ∈ below p ∨ q = p ∧ ∃ f, t.file? p = some f) := by
  unfold visited
  split
  · rename_i seen
    simp only [seen, true_and, file?_eq_some_iff]
    split
    · rename_i node
      simp [node]
    · rename_i f node
      simp [node]
    · rename_i noDir noFile
      have neither : ¬(t.node p = some .dir) ∧ ∀ f, t.node p ≠ some (.file f) := ⟨noDir, noFile⟩
      simp [neither]
  · rename_i unseen
    simp [unseen]

/-- The walk of a directory finds the files below it when it enters every
directory and visits every entry on the way. -/
structure Found (t : FileTree P F) (enter : Option P → Bool) (visit : P → Bool) (depth : Nat)
    (dir : Option P) (p : P) : Prop where
  file : ∃ f, t.file? p = some f
  below : (ancestors p).take (trail dir).length = trail dir
  entered : enter dir = true
  visited : visit p = true
  onTheWay : ∀ d ∈ (ancestors p).drop (trail dir).length, visit d = true ∧ enter (some d) = true
  depth : (ancestors p).length ≤ (trail dir).length + depth

/-- Either the file is an entry of the directory, or one of its directories is. -/
theorem Found.cases {depth : Nat} (found : Found t enter visit depth dir p) :
    ancestors p = trail dir ∨ ∃ d rest, (ancestors p).drop (trail dir).length = d :: rest ∧
      ancestors d = trail dir ∧ t.node d = some .dir := by
  cases next : (ancestors p).drop (trail dir).length with
  | nil =>
    left
    exact (List.take_of_length_le (List.drop_eq_nil_iff.mp next)).symm.trans found.below
  | cons d rest =>
    have bound : (trail dir).length < (ancestors p).length := by
      have length := congrArg List.length next
      rw [List.length_drop, List.length_cons] at length
      omega
    have here : (ancestors p)[(trail dir).length] = d := by
      rw [List.drop_eq_getElem_cons bound] at next
      exact (List.cons.inj next).1
    refine .inr ⟨d, rest, rfl, ?_, ?_⟩
    · rw [← here, ancestors_getElem p _ bound, found.below]
    · obtain ⟨f, file⟩ := found.file
      refine t.node_of_mem_ancestors (p := p) ?_ (here ▸ List.getElem_mem bound)
      rw [file?_eq_some_iff.mp file]
      exact Option.some_ne_none _

theorem mem_walk_zero : p ∈ t.walk enter visit 0 dir ↔
    enter dir = true ∧ ∃ c ∈ t.children dir, p ∈ t.visited visit (fun _ => []) c := by
  rw [walk]
  split
  · rename_i entered
    rw [List.mem_flatMap, and_iff_right entered]
  · rename_i closed
    exact ⟨nofun, fun both => absurd both.1 closed⟩

theorem mem_walk_succ {depth : Nat} : p ∈ t.walk enter visit (depth + 1) dir ↔
    enter dir = true ∧ ∃ c ∈ t.children dir,
      p ∈ t.visited visit (fun c => t.walk enter visit depth (some c)) c := by
  rw [walk]
  split
  · rename_i entered
    rw [List.mem_flatMap, and_iff_right entered]
  · rename_i closed
    exact ⟨nofun, fun both => absurd both.1 closed⟩

/-- A file among the entries is found. -/
theorem Found.entry {depth : Nat} (entered : enter dir = true) (seen : visit p = true)
    (chain : ancestors p = trail dir) (file : ∃ f, t.file? p = some f) :
    Found t enter visit depth dir p where
  file := file
  below := by rw [chain, List.take_length]
  entered := entered
  visited := seen
  onTheWay := by
    rw [chain, List.drop_length]
    exact fun d mem => absurd mem List.not_mem_nil
  depth := by
    rw [chain]
    exact Nat.le_add_right _ _

/-- What is found in a directory among the entries is found. -/
theorem found_below_iff {depth : Nat} {d : P} {rest : List P}
    (next : (ancestors p).drop (trail dir).length = d :: rest) (chain : ancestors d = trail dir) :
    Found t enter visit (depth + 1) dir p ↔
      enter dir = true ∧ visit d = true ∧ Found t enter visit depth (some d) p := by
  have longer : (trail (some d)).length = (trail dir).length + 1 := by
    rw [trail, chain, List.length_append, List.length_singleton]
  have later : (ancestors p).drop (trail (some d)).length = rest := by
    rw [longer, ← List.drop_drop, next]
    rfl
  have split : ancestors p = (ancestors p).take (trail dir).length ++ d :: rest := by
    rw [← next, List.take_append_drop]
  have front : (ancestors p).take (trail dir).length = trail dir →
      (ancestors p).take (trail (some d)).length = trail (some d) := by
    intro below
    rw [below] at split
    rw [split, longer, trail, chain, List.append_cons]
    exact List.take_left' (by rw [List.length_append, List.length_singleton])
  have back : (ancestors p).take (trail (some d)).length = trail (some d) →
      (ancestors p).take (trail dir).length = trail dir := by
    intro below
    have shorter := congrArg (List.take (trail dir).length) below
    rw [List.take_take, longer, Nat.min_eq_left (Nat.le_succ _), trail, chain,
      List.take_left' rfl] at shorter
    exact shorter
  constructor
  · intro found
    have way := found.onTheWay
    rw [next] at way
    obtain ⟨first, others⟩ := List.forall_mem_cons.mp way
    refine ⟨found.entered, first.1, found.file, front found.below, first.2, found.visited, ?_, ?_⟩
    · rw [later]
      exact others
    · have bound := found.depth
      omega
  · rintro ⟨entered, seen, found⟩
    refine ⟨found.file, back found.below, entered, found.visited, ?_, ?_⟩
    · rw [next]
      refine List.forall_mem_cons.mpr ⟨⟨seen, found.entered⟩, ?_⟩
      rw [← later]
      exact found.onTheWay
    · have bound := found.depth
      omega

/-- A file in the directory itself is visited, whatever lies below. -/
theorem Found.visited_child {depth : Nat} (found : Found t enter visit depth dir p)
    (chain : ancestors p = trail dir) (below : P → List P) :
    ∃ c ∈ t.children dir, p ∈ t.visited visit below c := by
  obtain ⟨f, file⟩ := found.file
  have present : t.node p ≠ none := by
    rw [file?_eq_some_iff.mp file]
    exact Option.some_ne_none _
  exact ⟨p, mem_children_iff.mpr ⟨present, chain⟩,
    mem_visited_iff.mpr ⟨found.visited, .inr ⟨rfl, f, file⟩⟩⟩

/-- **The walk finds exactly the files it can get to.** -/
theorem mem_walk_iff {depth : Nat} :
    p ∈ t.walk enter visit depth dir ↔ Found t enter visit depth dir p := by
  induction depth generalizing dir with
  | zero =>
    rw [mem_walk_zero]
    constructor
    · rintro ⟨entered, c, mem, visited⟩
      obtain ⟨-, chain⟩ := mem_children_iff.mp mem
      obtain ⟨seen, ⟨-, nothing⟩ | ⟨rfl, file⟩⟩ := mem_visited_iff.mp visited
      · exact absurd nothing List.not_mem_nil
      · exact .entry entered seen chain file
    · intro found
      rcases found.cases with chain | ⟨d, rest, next, -, -⟩
      · exact ⟨found.entered, found.visited_child chain _⟩
      · have bound := found.depth
        have length := congrArg List.length next
        rw [List.length_drop, List.length_cons] at length
        omega
  | succ depth ih =>
    rw [mem_walk_succ]
    constructor
    · rintro ⟨entered, c, mem, visited⟩
      obtain ⟨-, chain⟩ := mem_children_iff.mp mem
      obtain ⟨seen, ⟨-, below⟩ | ⟨rfl, file⟩⟩ := mem_visited_iff.mp visited
      · have found := ih.mp below
        have next : ∃ rest, (ancestors p).drop (trail dir).length = c :: rest := by
          have split := (List.take_append_drop (trail (some c)).length (ancestors p)).symm
          rw [found.below, trail, chain, List.append_assoc] at split
          rw [split, List.drop_left' rfl]
          exact ⟨_, rfl⟩
        obtain ⟨rest, next⟩ := next
        exact (found_below_iff next chain).mpr ⟨entered, seen, found⟩
      · exact .entry entered seen chain file
    · intro found
      rcases found.cases with chain | ⟨d, rest, next, chain, isDir⟩
      · exact ⟨found.entered, found.visited_child chain _⟩
      · obtain ⟨entered, seen, found'⟩ := (found_below_iff next chain).mp found
        have present : t.node d ≠ none := by
          rw [isDir]
          exact Option.some_ne_none _
        exact ⟨entered, d, mem_children_iff.mpr ⟨present, chain⟩,
          mem_visited_iff.mpr ⟨seen, .inl ⟨isDir, ih.mpr found'⟩⟩⟩

/-- From the root. -/
theorem mem_walk_root_iff {depth : Nat} :
    p ∈ t.walk enter visit depth none ↔ (∃ f, t.file? p = some f) ∧ enter none = true ∧
      visit p = true ∧ (∀ d ∈ ancestors p, visit d = true ∧ enter (some d) = true) ∧
      (ancestors p).length ≤ depth := by
  rw [mem_walk_iff]
  constructor
  · intro found
    have bound := found.depth
    rw [trail, List.length_nil, Nat.zero_add] at bound
    exact ⟨found.file, found.entered, found.visited, found.onTheWay, bound⟩
  · rintro ⟨file, entered, seen, way, bound⟩
    exact ⟨file, rfl, entered, seen, way, by rw [trail, List.length_nil]; omega⟩

end Lib.FileTree
