import Mathlib.Data.List.Basic

/-!
# Places reached by paths

Paths are an origin and what names make of them; a `Chain` leads from the top to a
place, one name after the other, as long as `link` holds of each step. Directory
trees are chains whose links are entries, and stronger links give the parts of a
tree that are known, watched or up to date.

Main result: `Chain.broken`, a chain holds for stronger links up to a first link
that does not, and everything left of it is inside that link's path.
-/

namespace Lib

/-- Paths: what a name adds to one can be told from it, and is no origin. -/
structure PathSystem (π ν : Type*) where
  origin : π
  child : π → ν → π
  Valid : π → Prop
  inj : ∀ {p q n m}, child p n = child q m → p = q ∧ n = m
  apart : ∀ p n, child p n ≠ origin
  up : ∀ {p n}, Valid (child p n) → p = origin ∨ Valid p

namespace PathSystem

variable {π ν ι : Type*} {s : PathSystem π ν} {p q r : π} {n m : ν}

/-- The path itself, or one below it. -/
inductive Inside (s : PathSystem π ν) : π → π → Prop
  | here (p : π) : Inside s p p
  | under {p q : π} (n : ν) (inside : Inside s p q) : Inside s (s.child p n) q

theorem inside_child_iff : s.Inside (s.child p n) q ↔ s.child p n = q ∨ s.Inside p q := by
  constructor
  · intro inside
    generalize eq : s.child p n = x at inside
    cases inside with
    | here => exact .inl rfl
    | under m inside =>
      obtain ⟨rfl, -⟩ := s.inj eq
      exact .inr inside
  · rintro (rfl | inside)
    · exact .here _
    · exact .under n inside

theorem inside_origin_iff : s.Inside s.origin q ↔ q = s.origin := by
  constructor
  · intro inside
    generalize eq : s.origin = x at inside
    cases inside with
    | here => rfl
    | under m inside => exact absurd eq.symm (s.apart _ _)
  · rintro rfl
    exact .here _

theorem Inside.trans (inside : s.Inside p q) (further : s.Inside q r) : s.Inside p r := by
  induction inside with
  | here => exact further
  | under n _ ih => exact .under n (ih further)

/-- Below a path is below one of its children. -/
theorem Inside.next (inside : s.Inside p q) : p = q ∨ ∃ n, s.Inside p (s.child q n) := by
  induction inside with
  | here => exact .inl rfl
  | @under p q n inside ih =>
    rcases ih with rfl | ⟨m, deeper⟩
    · exact .inr ⟨n, .here _⟩
    · exact .inr ⟨m, .under n deeper⟩

theorem Inside.of_child (inside : s.Inside p (s.child q n)) : s.Inside p q :=
  inside.trans (.under n (.here q))

/-- What is below a valid path is valid from there up. -/
theorem Inside.valid (inside : s.Inside p q) (valid : s.Valid p) : q = s.origin ∨ s.Valid q := by
  induction inside with
  | here => exact .inr valid
  | @under p q n inside ih =>
    rcases s.up valid with rfl | valid
    · exact .inl (inside_origin_iff.mp inside)
    · exact ih valid

theorem Inside.valid_child (inside : s.Inside p (s.child q n)) (valid : s.Valid p) :
    s.Valid (s.child q n) :=
  (inside.valid valid).resolve_left (s.apart q n)

/-- Two paths above one are above each other. -/
theorem Inside.total (left : s.Inside p q) (right : s.Inside p r) :
    s.Inside q r ∨ s.Inside r q := by
  induction left generalizing r with
  | here => exact .inl right
  | @under p q n left ih =>
    rcases inside_child_iff.mp right with rfl | right
    · exact .inr (.under n left)
    · exact ih right

/-! ## Chains -/

/-- A place reached from the top by links. -/
inductive Chain (s : PathSystem π ν) (top : ι) (link : ι → π → ν → ι → Prop) : ι → π → Prop
  | top : Chain s top link top s.origin
  | child {P D : ι} {p : π} {n : ν} (above : Chain s top link P p) (here : link P p n D) :
      Chain s top link D (s.child p n)

variable {top P D D' : ι} {link link' : ι → π → ν → ι → Prop}

theorem chain_child_iff :
    s.Chain top link D (s.child p n) ↔ ∃ P, s.Chain top link P p ∧ link P p n D := by
  constructor
  · intro chain
    generalize eq : s.child p n = x at chain
    cases chain with
    | top => exact absurd eq (s.apart _ _)
    | child above here =>
      obtain ⟨rfl, rfl⟩ := s.inj eq
      exact ⟨_, above, here⟩
  · rintro ⟨P, above, here⟩
    exact .child above here

theorem chain_origin_iff : s.Chain top link D s.origin ↔ D = top := by
  constructor
  · intro chain
    generalize eq : s.origin = x at chain
    cases chain with
    | top => rfl
    | child above here => exact absurd eq.symm (s.apart _ _)
  · rintro rfl
    exact .top

theorem Chain.mono (weaker : ∀ P p n D, link P p n D → link' P p n D)
    (chain : s.Chain top link D p) : s.Chain top link' D p := by
  induction chain with
  | top => exact .top
  | child above here ih => exact .child ih (weaker _ _ _ _ here)

/-- **The first link that does not hold is above everything that is not reached.** -/
theorem Chain.broken (chain : s.Chain top link D p) (link' : ι → π → ν → ι → Prop) :
    s.Chain top link' D p ∨ ∃ P q n E, s.Chain top link P q ∧ s.Chain top link' P q ∧
      link P q n E ∧ ¬link' P q n E ∧ s.Inside p (s.child q n) := by
  induction chain with
  | top => exact .inl .top
  | @child P D p n above here ih =>
    rcases ih with kept | ⟨Q, q, m, E, old, new, was, fails, inside⟩
    · by_cases holds : link' P p n D
      · exact .inl (.child kept holds)
      · exact .inr ⟨P, p, n, D, above, kept, here, holds, .here _⟩
    · exact .inr ⟨Q, q, m, E, old, new, was, fails, .under n inside⟩

/-- On the way to a place are the places above it. -/
theorem Chain.up (chain : s.Chain top link D p) (inside : s.Inside p q) :
    ∃ A, s.Chain top link A q := by
  induction inside generalizing D with
  | here => exact ⟨D, chain⟩
  | under n _ ih =>
    obtain ⟨P, above, -⟩ := chain_child_iff.mp chain
    exact ih above

theorem Chain.through (chain : s.Chain top link D p) (inside : s.Inside p (s.child q n)) :
    ∃ A B, s.Chain top link A q ∧ link A q n B := by
  obtain ⟨B, below⟩ := chain.up inside
  obtain ⟨A, above, here⟩ := chain_child_iff.mp below
  exact ⟨A, B, above, here⟩

/-- A name leads to one place. -/
theorem Chain.unique (functional : ∀ P p n D D', link P p n D → link P p n D' → D = D')
    (chain : s.Chain top link D p) (chain' : s.Chain top link D' p) : D = D' := by
  induction chain generalizing D' with
  | top => exact (chain_origin_iff.mp chain').symm
  | child above here ih =>
    obtain ⟨P, above', here'⟩ := chain_child_iff.mp chain'
    cases ih above'
    exact functional _ _ _ _ _ here here'

/-- A place that is linked once has one path. -/
theorem Chain.path_unique (never : ∀ P p n, ¬link P p n top)
    (once : ∀ P p n P' p' n' D, link P p n D → link P' p' n' D → P = P' ∧ n = n')
    (chain : s.Chain top link D p) (chain' : s.Chain top link D q) : p = q := by
  induction chain generalizing q with
  | top =>
    cases chain' with
    | top => rfl
    | child _ here => exact absurd here (never _ _ _)
  | child above here ih =>
    cases chain' with
    | top => exact absurd here (never _ _ _)
    | child above' here' =>
      obtain ⟨rfl, rfl⟩ := once _ _ _ _ _ _ _ here here'
      rw [ih above']

end PathSystem

end Lib
