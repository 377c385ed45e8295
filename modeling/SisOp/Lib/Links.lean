import SisOp.Lib.FileTree
import Mathlib.Data.List.Infix

/-!
# Symbolic links

A file system as a tree of physical places whose leaves are regular files and
symbolic links. A path is resolved element by element; a link met on the way is
replaced by its target, at most a given number of times. `resolve_append` cuts a
resolution in two, `resolve_mono` compares two file systems, and
`Contained.mkdir` says when a path that stays inside a directory still does once a
directory of it was made.
-/

set_option linter.unusedSectionVars false

namespace Lib

open Std Hierarchy

universe u v

/-- A place in the tree: the names from the root down to it. -/
structure Place (C : Type u) where
  names : List C
  deriving DecidableEq

namespace Place

variable {C : Type u}

def root : Place C := ⟨[]⟩

def child (p : Place C) (c : C) : Place C := ⟨p.names ++ [c]⟩

/-- `..`; the root is its own parent. -/
def parent (p : Place C) : Place C := ⟨p.names.dropLast⟩

/-- `q` is `p` or lies below it. -/
def Within (p q : Place C) : Prop := p.names <+: q.names

/-- `q` lies strictly below `p`. -/
def Inside (p q : Place C) : Prop := p.Within q ∧ p ≠ q

variable {p q r : Place C} {c : C}

/-- A place has one parent and one name in it. -/
theorem child_inj {d : C} (same : p.child c = q.child d) : p = q ∧ c = d := by
  have names : p.names ++ [c] = q.names ++ [d] := congrArg Place.names same
  obtain ⟨front, last⟩ := List.append_inj' names rfl
  cases p
  cases q
  cases front
  exact ⟨rfl, (List.cons.inj last).1⟩

theorem within_refl (p : Place C) : p.Within p := List.prefix_rfl

/-- What lies inside a place inside another lies inside that. -/
theorem Within.trans (first : p.Within q) (second : q.Within r) : p.Within r :=
  List.IsPrefix.trans first second

theorem within_child (p : Place C) (c : C) : p.Within (p.child c) := List.prefix_append _ _

/-- What lies in a directory within `p` lies inside `p`. -/
theorem Within.inside_child (within : p.Within q) (c : C) : p.Inside (q.child c) := by
  refine ⟨within.trans (within_child q c), ?_⟩
  rintro rfl
  have length := List.IsPrefix.length_le within
  rw [child, List.length_append, List.length_singleton] at length
  omega

variable [Ord C] [TransOrd C] [LawfulEqOrd C]

instance : Ord (Place C) := ⟨compareOn Place.names⟩

theorem compare_place : (compare : Place C → Place C → Ordering) = compareOn Place.names := rfl

instance : TransOrd (Place C) := by
  unfold TransOrd
  rw [compare_place]
  infer_instance

instance : LawfulEqOrd (Place C) where
  eq_of_compare {a b} same := by
    rw [compare_place, compareOn, Std.compare_eq_iff_eq] at same
    cases a
    cases b
    cases same
    rfl

instance : Hierarchy (Place C) where
  ancestors p := (List.range p.names.length).map fun i => ⟨p.names.take i⟩
  ancestors_getElem p i h := by
    rw [List.length_map, List.length_range] at h
    rw [List.getElem_map, List.getElem_range, List.length_take, Nat.min_eq_left (Nat.le_of_lt h),
      ← List.map_take, List.take_range, Nat.min_eq_left (Nat.le_of_lt h)]
    refine List.map_congr_left fun j mem => ?_
    rw [List.take_take, Nat.min_eq_left (Nat.le_of_lt (List.mem_range.mp mem))]

/-- The parent is above its child. -/
theorem mem_ancestors_child (p : Place C) (c : C) : p ∈ ancestors (p.child c) := by
  refine List.mem_map.mpr ⟨p.names.length, List.mem_range.mpr ?_, ?_⟩
  · rw [child, List.length_append, List.length_singleton]
    omega
  · rw [child, List.take_left]

end Place

/-- One element of a path. -/
inductive Element (C : Type u) where
  | here
  | up
  | name (c : C)
  deriving DecidableEq

/-- What a symbolic link says. -/
structure Target (C : Type u) where
  absolute : Bool
  path : List (Element C)
  deriving DecidableEq

/-- What is no directory. -/
inductive Leaf (C : Type u) (F : Type v) where
  | file (f : F)
  | link (target : Target C)
  deriving DecidableEq

abbrev Disk (C : Type u) (F : Type v) [Ord C] [TransOrd C] [LawfulEqOrd C] :=
  FileTree (Place C) (Leaf C F)

namespace Links

variable {C : Type u} {F : Type v} [Ord C] [TransOrd C] [LawfulEqOrd C] [DecidableEq C]

/-- Element by element, `follow` being what a link leads to; the links that may
still be followed are part of the result. -/
def walk (disk : Disk C F) (links : Nat)
    (follow : Place C → List (Element C) → Option (Place C × Nat)) :
    Place C → List (Element C) → Option (Place C × Nat)
  | cur, [] => some (cur, links)
  | cur, .here :: path => walk disk links follow cur path
  | cur, .up :: path => walk disk links follow cur.parent path
  | cur, .name c :: path =>
    match disk.node (cur.child c) with
    | some .dir => walk disk links follow (cur.child c) path
    | some (.file (.link target)) =>
      follow (if target.absolute then .root else cur) (target.path ++ path)
    | _ => none

/-- The directory a path leads to. -/
def resolve (disk : Disk C F) : Nat → Place C → List (Element C) → Option (Place C × Nat)
  | 0 => walk disk 0 fun _ _ => none
  | links + 1 => walk disk (links + 1) (resolve disk links)

variable {disk disk' : Disk C F} {links : Nat} {cur : Place C}

theorem resolve_nil : resolve disk links cur [] = some (cur, links) := by
  cases links <;> rfl

theorem resolve_here (path : List (Element C)) :
    resolve disk links cur (.here :: path) = resolve disk links cur path := by
  cases links <;> rfl

theorem resolve_up (path : List (Element C)) :
    resolve disk links cur (.up :: path) = resolve disk links cur.parent path := by
  cases links <;> rfl

/-- What a link leads to, one link less to follow. -/
def follow (disk : Disk C F) : Nat → Place C → List (Element C) → Option (Place C × Nat)
  | 0 => fun _ _ => none
  | links + 1 => resolve disk links

/-- A name that is a directory is entered, one that is a link is followed. -/
theorem resolve_name (c : C) (path : List (Element C)) :
    resolve disk links cur (.name c :: path) =
      match disk.node (cur.child c) with
      | some .dir => resolve disk links (cur.child c) path
      | some (.file (.link target)) =>
        follow disk links (if target.absolute then .root else cur) (target.path ++ path)
      | _ => none := by
  cases links <;> rfl

private theorem append_of_follow (links : Nat) {path' : List (Element C)}
    (cut : ∀ cur path, follow disk links cur (path ++ path') =
      (follow disk links cur path).bind fun r => resolve disk r.2 r.1 path')
    (cur : Place C) (path : List (Element C)) :
    resolve disk links cur (path ++ path') =
      (resolve disk links cur path).bind fun r => resolve disk r.2 r.1 path' := by
  induction path generalizing cur with
  | nil =>
    rw [resolve_nil]
    rfl
  | cons e path ih =>
    cases e with
    | here => rw [List.cons_append, resolve_here, resolve_here, ih]
    | up => rw [List.cons_append, resolve_up, resolve_up, ih]
    | name c =>
      rw [List.cons_append, resolve_name, resolve_name]
      split
      · exact ih _
      · rw [← List.append_assoc, cut]
      · rfl

/-- A resolution can be cut anywhere. -/
theorem resolve_append (cur : Place C) (path path' : List (Element C)) :
    resolve disk links cur (path ++ path') =
      (resolve disk links cur path).bind fun r => resolve disk r.2 r.1 path' := by
  induction links generalizing cur path with
  | zero => exact append_of_follow 0 (fun _ _ => rfl) cur path
  | succ links ih => exact append_of_follow (links + 1) ih cur path

/-- The place a file opened for writing is at: a link in its place is followed,
and what is not there yet is created. -/
def reach (disk : Disk C F) : Nat → Nat → Place C → List (Element C) → Option (Place C)
  | 0, _, _, _ => none
  | steps + 1, links, cur, path =>
    match path.getLast?, resolve disk links cur path.dropLast with
    | some (.name c), some (dir, left) =>
      match disk.node (dir.child c), left with
      | some .dir, _ => none
      | some (.file (.link target)), left + 1 =>
        reach disk steps left (if target.absolute then .root else dir) target.path
      | some (.file (.link _)), 0 => none
      | _, _ => some (dir.child c)
    | _, _ => none

/-! ## Comparing file systems -/

/-- Every directory and every link is in the other one too. -/
structure Leads (disk disk' : Disk C F) : Prop where
  dir : ∀ p, disk.node p = some .dir → disk'.node p = some .dir
  link : ∀ p target, disk.node p = some (.file (.link target)) →
    disk'.node p = some (.file (.link target))

private theorem mono_of_follow (links : Nat) (leads : Leads disk disk')
    (same : ∀ cur path r, follow disk links cur path = some r →
      follow disk' links cur path = some r)
    {path : List (Element C)} {r : Place C × Nat} (found : resolve disk links cur path = some r) :
    resolve disk' links cur path = some r := by
  induction path generalizing cur with
  | nil =>
    rw [resolve_nil] at found ⊢
    exact found
  | cons e path ih =>
    cases e with
    | here =>
      rw [resolve_here] at found ⊢
      exact ih found
    | up =>
      rw [resolve_up] at found ⊢
      exact ih found
    | name c =>
      rw [resolve_name] at found ⊢
      split at found
      · rename_i here
        rw [leads.dir _ here]
        exact ih found
      · rename_i target here
        rw [leads.link _ _ here]
        exact same _ _ _ found
      · cases found

/-- Where a path leads it still leads when directories and links are added. -/
theorem resolve_mono (leads : Leads disk disk') {path : List (Element C)} {r : Place C × Nat}
    (found : resolve disk links cur path = some r) : resolve disk' links cur path = some r := by
  induction links generalizing cur path r with
  | zero => exact mono_of_follow 0 leads (fun _ _ _ absent => nomatch absent) found
  | succ links ih => exact mono_of_follow (links + 1) leads (fun _ _ _ deeper => ih deeper) found

theorem Leads.refl (disk : Disk C F) : Leads disk disk := ⟨fun _ => id, fun _ _ => id⟩

/-- What leads on two disks after each other leads. -/
theorem Leads.trans {disk'' : Disk C F} (first : Leads disk disk') (second : Leads disk' disk'') :
    Leads disk disk'' :=
  ⟨fun p dir => second.dir p (first.dir p dir),
    fun p t link => second.link p t (first.link p t link)⟩

/-! ## Paths that stay inside a directory -/

/-- However far the names can be followed from `base`, they lead within it. -/
def Contained (disk : Disk C F) (links : Nat) (base : Place C) (path : List (Element C)) : Prop :=
  ∀ front, front <+: path → ∀ r, resolve disk links base front = some r → base.Within r.1

variable {base : Place C} {path : List (Element C)}

/-- With fewer directories and links, a way that stays inside still does. -/
theorem Contained.of_leads (contained : Contained disk links base path) (leads : Leads disk' disk) :
    Contained disk' links base path :=
  fun front shorter r found => contained front shorter r (resolve_mono leads found)

/-- The beginning of a way that stays inside does. -/
theorem Contained.front (contained : Contained disk links base path) {front : List (Element C)}
    (shorter : front <+: path) : Contained disk links base front :=
  fun first before => contained first (before.trans shorter)

/-- A new directory takes nothing away. -/
theorem leads_mkdir {p : Place C} (made : disk.mkdir p = some disk') : Leads disk disk' := by
  have vacant : disk.node p = none := by
    by_contra present
    have fails : disk.mkdir p = none :=
      FileTree.mkdir_eq_none_iff.mpr fun both => present both.2
    rw [made] at fails
    cases fails
  constructor
  · intro q dir
    rw [FileTree.node_mkdir made]
    split
    · rfl
    · exact dir
  · intro q target link
    rw [FileTree.node_mkdir made, if_neg]
    · exact link
    · rintro rfl
      rw [vacant] at link
      cases link

/-- Making the next directory on the way keeps the way inside: it is empty. -/
theorem Contained.mkdir {front rest : List (Element C)} {c : C} {r : Place C × Nat}
    (plain : ∀ e ∈ rest, ∃ c, e = .name c)
    (contained : Contained disk links base (front ++ .name c :: rest))
    (reached : resolve disk links base front = some r)
    (made : disk.mkdir (r.1.child c) = some disk') :
    Contained disk' links base (front ++ .name c :: rest) := by
  have within : base.Within r.1 := contained front (List.prefix_append _ _) r reached
  have leads := leads_mkdir made
  have still := resolve_mono leads reached
  have here : disk'.node (r.1.child c) = some .dir := by
    rw [FileTree.node_mkdir made, if_pos rfl]
  have empty : ∀ e, disk'.node ((r.1.child c).child e) = none := by
    intro e
    have other : (r.1.child c).child e ≠ r.1.child c :=
      (ne_of_mem (Place.mem_ancestors_child _ e)).symm
    rw [FileTree.node_mkdir made, if_neg other]
    refine FileTree.node_none_of_above ?_ (Place.mem_ancestors_child _ e)
    by_contra present
    have fails : disk.mkdir (r.1.child c) = none :=
      FileTree.mkdir_eq_none_iff.mpr fun both => present both.2
    rw [made] at fails
    cases fails
  intro first shorter r' found
  rcases List.prefix_or_prefix_of_prefix shorter (List.prefix_append _ _) with before | ⟨more, rfl⟩
  · -- the way up to here resolved before, and does as it did
    obtain ⟨tail, rfl⟩ := before
    rw [resolve_append] at reached
    obtain ⟨r₀, head, -⟩ := Option.bind_eq_some_iff.mp reached
    have same := resolve_mono leads head
    rw [found] at same
    cases same
    exact contained first ((List.prefix_append _ _).trans (List.prefix_append _ _)) _ head
  · have after := (List.prefix_append_right_inj front).mp shorter
    rw [resolve_append, still, Option.bind_some] at found
    rcases List.prefix_cons_iff.mp after with rfl | ⟨later, rfl, last⟩
    · rw [resolve_nil] at found
      cases found
      exact within
    · rw [resolve_name, here] at found
      dsimp only at found
      cases later with
      | nil =>
        rw [resolve_nil] at found
        cases found
        exact within.trans (Place.within_child _ _)
      | cons e later =>
        obtain ⟨d, rfl⟩ := plain e (last.subset List.mem_cons_self)
        rw [resolve_name, empty] at found
        cases found

end Links

end Lib
