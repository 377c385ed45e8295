import SisOp.Lib.FileTree

/-!
# Prefix-free maps

A map from the paths of a hierarchy to values in which no path with a value lies
above another one. A value can be stored where it keeps the map so, and taken from
anywhere.
-/

namespace Lib

open Hierarchy

universe u v

structure PrefixMap (P : Type u) (C : Type v) [Hierarchy P] where
  get : P → Option C
  prefixFree : ∀ {p q}, get p ≠ none → q ∈ ancestors p → get q = none

namespace PrefixMap

variable {P : Type u} {C : Type v} [Hierarchy P] {m m' : PrefixMap P C} {p q : P} {c : C}

instance : EmptyCollection (PrefixMap P C) where
  emptyCollection := ⟨fun _ => none, fun present => (present rfl).elim⟩

@[ext] theorem ext (same : ∀ p, m.get p = m'.get p) : m = m' := by
  cases m
  cases m'
  congr
  exact funext same

@[simp] theorem get_empty : (∅ : PrefixMap P C).get p = none := rfl

/-- No path with a value lies above `p` or below it. -/
def Fits (m : PrefixMap P C) (p : P) : Prop :=
  (∀ q ∈ ancestors p, m.get q = none) ∧ ∀ q, p ∈ ancestors q → m.get q = none

open Classical in
/-- The value is stored if it fits. -/
noncomputable def store (m : PrefixMap P C) (p : P) (c : C) : PrefixMap P C × Bool :=
  if fits : m.Fits p then
    ({ get := fun q => if q = p then some c else m.get q
       prefixFree := by
        intro r q present above
        by_cases lower : r = p
        · subst lower
          rw [if_neg (ne_of_mem above)]
          exact fits.1 q above
        · rw [if_neg lower] at present
          rw [if_neg]
          · exact m.prefixFree present above
          · rintro rfl
            exact present (fits.2 r above) }, true)
  else (m, false)

open Classical in
/-- What is at a path is taken away. -/
noncomputable def erase (m : PrefixMap P C) (p : P) : PrefixMap P C × Bool :=
  ({ get := fun q => if q = p then none else m.get q
     prefixFree := by
      intro r q present above
      split
      · rfl
      · refine m.prefixFree (fun absent => present ?_) above
        rw [absent]
        split <;> rfl }, decide (m.get p ≠ none))

/-- A store succeeds where it fits. -/
theorem store_ok_iff : (m.store p c).2 = true ↔ m.Fits p := by
  unfold store
  split
  · rename_i fits
    exact ⟨fun _ => fits, fun _ => rfl⟩
  · rename_i blocked
    exact ⟨nofun, fun fits => absurd fits blocked⟩

/-- It sets one value. -/
theorem get_store (fits : m.Fits p) (q : P) [Decidable (q = p)] :
    (m.store p c).1.get q = if q = p then some c else m.get q := by
  rw [store, dif_pos fits]
  dsimp only
  split <;> rfl

/-- A store that is refused changes nothing. -/
theorem store_of_not_fits (blocked : ¬m.Fits p) : m.store p c = (m, false) := dif_neg blocked

theorem erase_ok_iff : (m.erase p).2 = true ↔ m.get p ≠ none := by
  rw [erase, decide_eq_true_eq]

/-- An erasure removes one value. -/
theorem get_erase (q : P) [Decidable (q = p)] :
    (m.erase p).1.get q = if q = p then none else m.get q := by
  rw [erase]
  dsimp only
  split <;> rfl

end PrefixMap

end Lib
