import SisOp.Lib.FileTree

/-!
# The tree below a directory

A `Subdir` says where the paths of a tree lie below one directory of a larger
tree. `sub` is the tree a program sees that works on that directory only. Every
operation on a path below the directory acts on it as the same operation acts on
the tree below, and changes nothing elsewhere.
-/

set_option linter.unusedSectionVars false

namespace Lib

open Std Hierarchy

universe u v

/-- The paths below one directory. `way` are the directories leading to it,
itself last. -/
structure Subdir (P : Type u) [Hierarchy P] where
  under : P → P
  relative : P → Option P
  way : List P
  relative_eq_some_iff : ∀ {q p}, relative q = some p ↔ q = under p
  ancestors_under : ∀ p, ancestors (under p) = way ++ (ancestors p).map under
  closed : ∀ {p q}, under p ∈ ancestors q → ∃ r, q = under r

namespace Subdir

variable {P : Type u} [Hierarchy P] (d : Subdir P) {p q : P}

/-- Different paths lie at different places below a directory. -/
theorem under_inj : d.under p = d.under q ↔ p = q := by
  constructor
  · intro same
    have left : d.relative (d.under p) = some p := d.relative_eq_some_iff.mpr rfl
    rw [same, d.relative_eq_some_iff.mpr rfl] at left
    exact (Option.some.inj left).symm
  · rintro rfl
    rfl

/-- The directory itself is not below it, nor is one above it. -/
theorem under_not_mem_way (p : P) : d.under p ∉ d.way := by
  intro mem
  have above : d.under p ∈ ancestors (d.under p) := by
    rw [d.ancestors_under]
    exact List.mem_append_left _ mem
  exact not_mem_self _ above

/-- Somewhere else than below the directory. -/
def Outside (q : P) : Prop := ∀ p, q ≠ d.under p

theorem outside_of_mem_way (mem : q ∈ d.way) : d.Outside q :=
  fun p same => d.under_not_mem_way p (same ▸ mem)

/-- Below the directory paths keep their order. -/
theorem mem_ancestors_under : d.under q ∈ ancestors (d.under p) ↔ q ∈ ancestors p := by
  rw [d.ancestors_under, List.mem_append, List.mem_map]
  constructor
  · rintro (mem | ⟨r, mem, same⟩)
    · exact absurd mem (d.under_not_mem_way q)
    · rwa [← d.under_inj.mp same]
  · intro mem
    exact .inr ⟨q, mem, rfl⟩

end Subdir

namespace FileTree

variable {P : Type u} {F : Type v} [Hierarchy P] [Ord P] [TransOrd P] [LawfulEqOrd P]
  [DecidableEq P]

private def subNodes (t : FileTree P F) (d : Subdir P) : ExtTreeMap P (Node F) :=
  Map.ofPairs (t.nodes.toList.filterMap fun entry =>
    (d.relative entry.1).map fun p => (p, entry.2))

private theorem getElem?_subNodes (t : FileTree P F) (d : Subdir P) (p : P) :
    (t.subNodes d)[p]? = t.nodes[d.under p]? := by
  have mem : ∀ k n, (k, n) ∈ (t.nodes.toList.filterMap fun entry =>
      (d.relative entry.1).map fun p => (p, entry.2)) ↔ t.nodes[d.under k]? = some n := by
    intro k n
    simp only [List.mem_filterMap, Prod.exists, Map.mem_toList_iff, Option.map_eq_some_iff,
      Prod.mk.injEq, d.relative_eq_some_iff]
    constructor
    · rintro ⟨_, _, present, _, rfl, rfl, rfl⟩
      exact present
    · intro present
      exact ⟨_, n, present, k, rfl, rfl, rfl⟩
  refine Option.ext fun n => ?_
  rw [subNodes, Map.getElem?_ofPairs, mem]
  intro k n n' left right
  exact Option.some.inj (((mem k n).mp left).symm.trans ((mem k n').mp right))

/-- The tree below a directory. -/
def sub (t : FileTree P F) (d : Subdir P) : FileTree P F where
  nodes := t.subNodes d
  closed := by
    intro p q mem above
    rw [Map.mem_iff_ne_none, getElem?_subNodes] at mem
    rw [getElem?_subNodes]
    exact t.closed _ _ (Map.mem_iff_ne_none.mpr mem) (d.mem_ancestors_under.mpr above)

/-- The directories leading to the directory are there. -/
def Entered (t : FileTree P F) (d : Subdir P) : Prop := ∀ q ∈ d.way, t.node q = some .dir

variable {t t' : FileTree P F} {d : Subdir P} {p q : P} {f : F}

/-- The tree below a directory has what lies below it. -/
@[simp] theorem node_sub : (t.sub d).node p = t.node (d.under p) := getElem?_subNodes t d p

@[simp] theorem file?_sub : (t.sub d).file? p = t.file? (d.under p) := by
  rw [file?, node_sub, file?]

@[simp] theorem isDir_sub : (t.sub d).isDir p = t.isDir (d.under p) := by
  rw [isDir, node_sub, isDir]

/-- Paths resolve below as above, once the directory is entered. -/
theorem resolves_sub (entered : t.Entered d) : (t.sub d).resolves p = t.resolves (d.under p) := by
  rw [Bool.eq_iff_iff, resolves_iff, resolves_iff, d.ancestors_under]
  simp only [node_sub, List.mem_append, List.mem_map]
  constructor
  · rintro resolved q (mem | ⟨r, mem, rfl⟩)
    · exact entered q mem
    · exact resolved r mem
  · intro resolved q mem
    exact resolved _ (.inr ⟨q, mem, rfl⟩)

theorem childless_sub : (t.sub d).childless p = t.childless (d.under p) := by
  rw [Bool.eq_iff_iff, childless_iff, childless_iff]
  constructor
  · intro none' q present above
    obtain ⟨r, rfl⟩ := d.closed above
    refine none' r ?_ (d.mem_ancestors_under.mp above)
    rwa [node_sub]
  · intro none' q present above
    rw [node_sub] at present
    exact none' _ present (d.mem_ancestors_under.mpr above)

/-! ## System calls -/

/-- What a call on a path below the directory does: it acts on the tree below as
the call there, and leaves the rest. -/
structure Acts (d : Subdir P) (t : FileTree P F) (result below : Option (FileTree P F)) : Prop where
  below : result.map (·.sub d) = below
  outside : ∀ t' ∈ result, ∀ q, d.Outside q → t'.node q = t.node q

private theorem acts_of {result below : Option (FileTree P F)}
    (fails : result = none ↔ below = none) {change : Option (Node F)}
    (above : ∀ t', result = some t' → ∀ q, t'.node q = if q = d.under p then change else t.node q)
    (here : ∀ t', below = some t' → ∀ q, t'.node q = if q = p then change else (t.sub d).node q) :
    Acts d t result below where
  below := by
    cases made : result with
    | none => rw [fails.mp made, Option.map_none]
    | some t' =>
      cases made' : below with
      | none => exact absurd (fails.mpr made') (by rw [made]; nofun)
      | some t'' =>
        refine congrArg some (ext_node fun q => ?_)
        rw [node_sub, above t' made, here t'' made', node_sub]
        simp only [d.under_inj]
  outside t' made q outside := by
    rw [above t' made, if_neg (outside p)]

/-- A call on a path below the directory acts on the tree below it. -/
theorem acts_mkdir (entered : t.Entered d) (p : P) :
    Acts d t (t.mkdir (d.under p)) ((t.sub d).mkdir p) := by
  refine acts_of ?_ (fun _ made q => node_mkdir made q) fun _ made q => node_mkdir made q
  rw [mkdir_eq_none_iff, mkdir_eq_none_iff, resolves_sub entered, node_sub]

theorem acts_place (entered : t.Entered d) (p : P) (f : F) :
    Acts d t (t.place (d.under p) f) ((t.sub d).place p f) := by
  refine acts_of ?_ (fun _ made q => node_place made q) fun _ made q => node_place made q
  rw [place_eq_none_iff, place_eq_none_iff, resolves_sub entered, isDir_sub]

theorem acts_unlink (t : FileTree P F) (d : Subdir P) (p : P) :
    Acts d t (t.unlink (d.under p)) ((t.sub d).unlink p) := by
  refine acts_of ?_ (fun _ made q => node_unlink made q) fun _ made q => node_unlink made q
  rw [unlink_eq_none_iff, unlink_eq_none_iff, node_sub, isDir_sub]

theorem acts_rmdir (t : FileTree P F) (d : Subdir P) (p : P) :
    Acts d t (t.rmdir (d.under p)) ((t.sub d).rmdir p) := by
  refine acts_of ?_ (fun _ made q => node_rmdir made q) fun _ made q => node_rmdir made q
  rw [rmdir_eq_none_iff, rmdir_eq_none_iff, isDir_sub, childless_sub]

/-! ## Sequences of calls -/

/-- What a sequence of calls below the directory does. -/
structure Works (d : Subdir P) (t t' below : FileTree P F) : Prop where
  below : t'.sub d = below
  outside : ∀ q, d.Outside q → t'.node q = t.node q

theorem Works.refl : Works d t t (t.sub d) := ⟨rfl, fun _ _ => rfl⟩

theorem Works.entered {below : FileTree P F} (works : Works d t t' below) (entered : t.Entered d) :
    t'.Entered d := by
  intro q mem
  rw [works.outside q (d.outside_of_mem_way mem)]
  exact entered q mem

/-- One piece of work after another. -/
theorem Works.trans {t₁ t₂ t₃ below below' : FileTree P F} (first : Works d t₁ t₂ below)
    (second : Works d t₂ t₃ below') : Works d t₁ t₃ below' where
  below := second.below
  outside q outside := (second.outside q outside).trans (first.outside q outside)

/-- A call that succeeds below works. -/
theorem Acts.works {result : Option (FileTree P F)} {t'' : FileTree P F}
    (acts : Acts d t result (some t'')) : ∃ t', result = some t' ∧ Works d t t' t'' := by
  obtain ⟨t', made, eq⟩ := Option.map_eq_some_iff.mp acts.below
  exact ⟨t', made, eq, acts.outside t' made⟩

/-- A call that fails below fails. -/
theorem Acts.fails {result : Option (FileTree P F)} (acts : Acts d t result none) : result = none :=
  Option.map_eq_none_iff.mp acts.below

/-- Making directories one after another works, with the same outcome. -/
theorem works_mkdirs (entered : t.Entered d) (ds : List P) :
    Works d t (t.mkdirs (ds.map d.under)).1 ((t.sub d).mkdirs ds).1 ∧
      (t.mkdirs (ds.map d.under)).2 = ((t.sub d).mkdirs ds).2 := by
  induction ds generalizing t with
  | nil => exact ⟨.refl, rfl⟩
  | cons p ds ih =>
    have acts := acts_mkdir entered p
    rw [List.map_cons, mkdirs, mkdirs]
    cases made : (t.sub d).mkdir p with
    | some t'' =>
      rw [made] at acts
      obtain ⟨t', made', works⟩ := acts.works
      rw [made']
      obtain ⟨rest, same⟩ := ih (works.entered entered)
      rw [works.below] at rest same
      exact ⟨works.trans rest, same⟩
    | none =>
      rw [made] at acts
      rw [acts.fails, node_sub]
      dsimp only
      split
      · exact ih entered
      · exact ⟨.refl, rfl⟩

/-- Removing directories one after another works. -/
theorem works_rmdirs (ds : List P) (t : FileTree P F) :
    Works d t (t.rmdirs (ds.map d.under)) ((t.sub d).rmdirs ds) := by
  induction ds generalizing t with
  | nil => exact .refl
  | cons p ds ih =>
    have acts := acts_rmdir t d p
    rw [List.map_cons, rmdirs, rmdirs]
    cases made : (t.sub d).rmdir p with
    | some t'' =>
      rw [made] at acts
      obtain ⟨t', made', works⟩ := acts.works
      rw [made']
      have rest := ih t'
      rw [works.below] at rest
      exact works.trans rest
    | none =>
      rw [made] at acts
      rw [acts.fails]
      exact .refl

/-- Directories that are there are not made again. -/
theorem mkdirs_append_of_dirs {ds : List P} (present : ∀ q ∈ ds, t.node q = some .dir)
    (es : List P) : t.mkdirs (ds ++ es) = t.mkdirs es := by
  induction ds with
  | nil => rfl
  | cons q ds ih =>
    have here := present q List.mem_cons_self
    have fails : t.mkdir q = none := by
      rw [mkdir_eq_none_iff, here]
      exact fun both => nomatch both.2
    rw [List.cons_append, mkdirs, fails, here]
    exact ih fun r mem => present r (List.mem_cons_of_mem _ mem)

/-- Making directories below the directory, the way to it first. -/
theorem works_makeDirs (entered : t.Entered d) {way : List P} (known : ∀ q ∈ way, q ∈ d.way)
    {ds : List P} (some_ : ds ≠ []) :
    Works d t (t.makeDirs (way ++ ds.map d.under)).1 ((t.sub d).makeDirs ds).1 ∧
      (t.makeDirs (way ++ ds.map d.under)).2 = ((t.sub d).makeDirs ds).2 := by
  obtain ⟨made, same⟩ := works_mkdirs entered ds
  have last : (way ++ ds.map d.under).getLast? = ds.getLast?.map d.under := by
    rw [List.getLast?_append_of_ne_nil _ (by simpa using some_), List.getLast?_map]
  have prior := mkdirs_append_of_dirs (fun q mem => entered q (known q mem)) (ds.map d.under)
  refine ⟨by rwa [makeDirs, makeDirs, prior], ?_⟩
  have check : ∀ q, (t.mkdirs (ds.map d.under)).1.isDir (d.under q) =
      ((t.sub d).mkdirs ds).1.isDir q := fun q => by rw [← made.below, isDir_sub]
  simp only [makeDirs, prior, same, last, Option.all_map, check]

end FileTree

end Lib
