import Std.Data.ExtTreeMap
import Mathlib.Data.List.Nodup

/-!
# Ordered finite maps

Lookup in Lean's extensional tree maps, stated with equality of keys instead of
comparison results, and the listing of a map as the set of its bindings.
-/

set_option linter.unusedSectionVars false

namespace Lib

open Std

variable {α β : Type*} [Ord α] [TransOrd α] [LawfulEqOrd α] [DecidableEq α]

namespace Map

variable (m : ExtTreeMap α β) (k a : α) (v : β)

theorem getElem?_insert : (m.insert k v)[a]? = if a = k then some v else m[a]? := by
  rw [ExtTreeMap.getElem?_insert]
  by_cases same : a = k
  · rw [if_pos same, if_pos (Std.compare_eq_iff_eq.mpr same.symm)]
  · rw [if_neg same, if_neg fun equal => same (Std.compare_eq_iff_eq.mp equal).symm]

theorem getElem?_erase : (m.erase k)[a]? = if a = k then none else m[a]? := by
  rw [ExtTreeMap.getElem?_erase]
  by_cases same : a = k
  · rw [if_pos same, if_pos (Std.compare_eq_iff_eq.mpr same.symm)]
  · rw [if_neg same, if_neg fun equal => same (Std.compare_eq_iff_eq.mp equal).symm]

variable {m k a v}

theorem mem_iff_ne_none : a ∈ m ↔ m[a]? ≠ none := by
  rw [ExtTreeMap.mem_iff_isSome_getElem?, Option.isSome_iff_ne_none]

theorem mem_insert_iff : a ∈ m.insert k v ↔ a = k ∨ a ∈ m := by
  rw [ExtTreeMap.mem_insert, Std.compare_eq_iff_eq, eq_comm]

theorem mem_erase_iff : a ∈ m.erase k ↔ a ≠ k ∧ a ∈ m := by
  rw [ExtTreeMap.mem_erase, ne_eq, Std.compare_eq_iff_eq, eq_comm]

theorem mem_toList_iff : (k, v) ∈ m.toList ↔ m[k]? = some v :=
  ExtTreeMap.mem_toList_iff_getElem?_eq_some

/-- A map without one of the keys of another is smaller. -/
theorem size_lt_of_mem {m' : ExtTreeMap α β} (sub : ∀ a, a ∈ m' → a ∈ m) (present : k ∈ m)
    (absent : k ∉ m') : m'.size < m.size := by
  have distinct : m'.keys.Nodup :=
    ExtTreeMap.distinct_keys.imp fun other same => other (Std.compare_eq_iff_eq.mpr same)
  have more : (k :: m'.keys).Nodup :=
    List.nodup_cons.mpr ⟨fun mem => absent (ExtTreeMap.mem_keys.mp mem), distinct⟩
  have inside : k :: m'.keys ⊆ m.keys := by
    intro a mem
    rcases List.mem_cons.mp mem with rfl | mem
    · exact ExtTreeMap.mem_keys.mpr present
    · exact ExtTreeMap.mem_keys.mpr (sub a (ExtTreeMap.mem_keys.mp mem))
  have length := more.length_le_of_subset inside
  rwa [List.length_cons, ExtTreeMap.length_keys, ExtTreeMap.length_keys] at length

/-- Of more keys than are bound one is free. -/
theorem exists_free (m : ExtTreeMap α β) {key : Nat → α} (apart : Function.Injective key) :
    ∃ i < m.keys.length + 1, m[key i]? = none := by
  by_contra bound
  have inside : (List.range (m.keys.length + 1)).map key ⊆ m.keys := by
    intro a mem
    obtain ⟨i, range, rfl⟩ := List.mem_map.mp mem
    rw [ExtTreeMap.mem_keys, mem_iff_ne_none]
    exact fun free => bound ⟨i, List.mem_range.mp range, free⟩
  have length := (List.nodup_range.map apart).length_le_of_subset inside
  rw [List.length_map, List.length_range] at length
  omega

/-- The map a list of bindings fills, a later binding replacing an earlier one. -/
def ofPairs (l : List (α × β)) : ExtTreeMap α β :=
  l.foldl (fun m entry => m.insert entry.1 entry.2) ∅

private theorem getElem?_foldl_insert {l : List (α × β)}
    (functional : ∀ k v v', (k, v) ∈ l → (k, v') ∈ l → v = v') (m : ExtTreeMap α β)
    (fresh : ∀ k v, (k, v) ∈ l → m[k]? = none ∨ m[k]? = some v) :
    (l.foldl (fun m entry => m.insert entry.1 entry.2) m)[k]? = some v ↔
      (k, v) ∈ l ∨ m[k]? = some v := by
  induction l generalizing m with
  | nil => simp
  | cons entry l ih =>
    obtain ⟨k', v'⟩ := entry
    have head : ∀ w, (k', w) ∈ l → w = v' := fun w mem =>
      functional k' w v' (List.mem_cons_of_mem _ mem) List.mem_cons_self
    rw [List.foldl_cons, ih (fun k v v' mem mem' =>
      functional k v v' (List.mem_cons_of_mem _ mem) (List.mem_cons_of_mem _ mem'))]
    · rw [getElem?_insert, List.mem_cons, Prod.mk.injEq]
      by_cases same : k = k'
      · subst k'
        have before := fresh k v' List.mem_cons_self
        simp only [if_true, Option.some.injEq, true_and]
        constructor
        · rintro (mem | rfl)
          · exact .inl (.inr mem)
          · exact .inl (.inl rfl)
        · rintro ((rfl | mem) | present)
          · exact .inr rfl
          · exact .inl mem
          · rw [present] at before
            rcases before with absent | equal
            · cases absent
            · exact .inr (Option.some.inj equal).symm
      · simp only [same, false_and, false_or, if_false]
    · intro k v mem
      rw [getElem?_insert]
      split
      · subst k
        exact .inr (congrArg some (head v mem).symm)
      · exact fresh k v (List.mem_cons_of_mem _ mem)

/-- Bindings that agree on each key are all in the map they fill. -/
theorem getElem?_ofPairs {l : List (α × β)}
    (functional : ∀ k v v', (k, v) ∈ l → (k, v') ∈ l → v = v') :
    (ofPairs l)[k]? = some v ↔ (k, v) ∈ l := by
  rw [ofPairs, getElem?_foldl_insert functional ∅ fun _ _ _ => .inl ExtTreeMap.getElem?_empty]
  simp

/-- The keys bound are those of the list. -/
theorem mem_ofPairs {l : List (α × β)} : k ∈ ofPairs l ↔ ∃ v, (k, v) ∈ l := by
  have all : ∀ m : ExtTreeMap α β,
      k ∈ l.foldl (fun m entry => m.insert entry.1 entry.2) m ↔ k ∈ m ∨ ∃ v, (k, v) ∈ l := by
    induction l with
    | nil => simp
    | cons entry l ih =>
      obtain ⟨k', v'⟩ := entry
      intro m
      rw [List.foldl_cons, ih, mem_insert_iff]
      simp only [List.mem_cons, Prod.mk.injEq, exists_or, exists_and_left, exists_eq, and_true]
      rw [or_comm (a := k = k'), or_assoc]
  rw [ofPairs, all]
  exact or_iff_right ExtTreeMap.not_mem_empty

end Map

end Lib
