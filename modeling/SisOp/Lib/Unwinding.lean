import Mathlib.Data.List.Basic

/-!
# Noninterference by unwinding

A system whose every step is taken on behalf of some domain and produces outputs.
To see that a domain learns nothing of what the others have or do, it is enough to
look at single steps: its own steps give the same outputs and keep two states that
look the same to it so, and the steps of the others change nothing it can see.
-/

namespace Lib.Unwinding

variable {σ α ω D : Type*} [DecidableEq D]

/-- The state after a list of steps, and what each of them produced. -/
def run (step : σ → α → σ × List ω) (dom : α → D) : σ → List α → σ × List (D × ω)
  | s, [] => (s, [])
  | s, a :: as =>
    let one := step s a
    let rest := run step dom one.1 as
    (rest.1, one.2.map (Prod.mk (dom a)) ++ rest.2)

/-- The conditions on single steps, in the states that have `I`. -/
structure Unwinds (step : σ → α → σ × List ω) (dom : α → D) (I : σ → Prop) (d : D)
    (Same : σ → σ → Prop) : Prop where
  symm : ∀ {s t}, Same s t → Same t s
  trans : ∀ {s t r}, Same s t → Same t r → Same s r
  invariant : ∀ {s} a, I s → I (step s a).1
  own : ∀ {s t a}, dom a = d → I s → I t → Same s t →
    (step s a).2 = (step t a).2 ∧ Same (step s a).1 (step t a).1
  other : ∀ {s a}, dom a ≠ d → I s → Same s s → Same s (step s a).1

variable {step : σ → α → σ × List ω} {dom : α → D} {I : σ → Prop} {d : D}
  {Same : σ → σ → Prop} {s t : σ}

/-- The steps of the other domains can be left out. -/
private theorem run_purged (unwinds : Unwinds step dom I d Same) (left : I s) (right : I t)
    (same : Same s t) (as : List α) :
    (run step dom s as).2.filter (·.1 = d) =
        (run step dom t (as.filter (dom · = d))).2.filter (·.1 = d) ∧
      Same (run step dom s as).1 (run step dom t (as.filter (dom · = d))).1 := by
  induction as generalizing s t with
  | nil => exact ⟨rfl, same⟩
  | cons a as ih =>
    by_cases mine : dom a = d
    · obtain ⟨outputs, after⟩ := unwinds.own mine left right same
      obtain ⟨rest, final⟩ := ih (unwinds.invariant a left) (unwinds.invariant a right) after
      rw [List.filter_cons_of_pos (by simpa using mine)]
      simp only [run, List.filter_append, outputs, rest]
      exact ⟨trivial, final⟩
    · have unseen := unwinds.other mine left (unwinds.trans same (unwinds.symm same))
      obtain ⟨rest, final⟩ := ih (unwinds.invariant a left) right
        (unwinds.trans (unwinds.symm unseen) same)
      have silent : ((step s a).2.map (Prod.mk (dom a))).filter (·.1 = d) = [] := by
        rw [List.filter_eq_nil_iff]
        intro output mem
        obtain ⟨o, -, rfl⟩ := List.mem_map.mp mem
        simpa using mine
      rw [List.filter_cons_of_neg (by simpa using mine)]
      simp only [run, List.filter_append, silent, List.nil_append]
      exact ⟨rest, final⟩

/-- **Noninterference.** Two runs from states that look the same to a domain, in
which it takes the same steps, give it the same outputs and end in states that
look the same to it. -/
theorem noninterference (unwinds : Unwinds step dom I d Same) (left : I s) (right : I t)
    (same : Same s t) {as bs : List α}
    (steps : as.filter (dom · = d) = bs.filter (dom · = d)) :
    (run step dom s as).2.filter (·.1 = d) = (run step dom t bs).2.filter (·.1 = d) ∧
      Same (run step dom s as).1 (run step dom t bs).1 := by
  have start := unwinds.trans (unwinds.symm same) same
  obtain ⟨outputs, final⟩ := run_purged unwinds left right same as
  obtain ⟨outputs', final'⟩ := run_purged unwinds right right start bs
  rw [steps] at outputs final
  exact ⟨outputs.trans outputs'.symm, unwinds.trans final (unwinds.symm final')⟩

end Lib.Unwinding
