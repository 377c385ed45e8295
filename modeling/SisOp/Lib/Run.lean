import Mathlib.Data.List.Basic
import Mathlib.Logic.Function.Basic
import Mathlib.Order.Basic

/-!
# Runs of a guarded step function

A system is a step function `step : σ → α → Option σ`: a label `α` names which
of its threads moves and how the environment answers, and `none` says the move
is not enabled. `run` follows a list of labels; `Meets ok` says that every move
of such a run is taken in a state where `ok` holds of it. `run_invariant` is the
induction rule every safety result over runs goes through.
-/

namespace Lib

variable {σ α : Type*} {step : σ → α → Option σ}

/-- The state reached from `s` along the labels, when every move is enabled. -/
def run (step : σ → α → Option σ) : σ → List α → Option σ
  | s, [] => some s
  | s, a :: as => (step s a).bind fun s' => run step s' as

/-- Every move of the run from `s` is taken where `ok` allows it. -/
def Meets (step : σ → α → Option σ) (ok : σ → α → Prop) : σ → List α → Prop
  | _, [] => True
  | s, a :: as =>
    ok s a ∧ match step s a with
      | some s' => Meets step ok s' as
      | none => True

@[simp] theorem run_nil (s : σ) : run step s [] = some s := rfl

theorem run_cons_eq_some {s s' : σ} {a : α} {as : List α} :
    run step s (a :: as) = some s' ↔
      ∃ t, step s a = some t ∧ run step t as = some s' := by
  rw [run, Option.bind_eq_some_iff]

theorem run_append {s : σ} (as bs : List α) :
    run step s (as ++ bs) = (run step s as).bind fun t => run step t bs := by
  induction as generalizing s with
  | nil => rfl
  | cons a as ih =>
    rw [List.cons_append, run, run]
    cases step s a with
    | none => rfl
    | some t => exact ih

@[simp] theorem Meets.nil (ok : σ → α → Prop) (s : σ) : Meets step ok s [] := trivial

theorem Meets.head {ok : σ → α → Prop} {s : σ} {a : α} {as : List α}
    (meets : Meets step ok s (a :: as)) : ok s a := meets.1

theorem Meets.tail {ok : σ → α → Prop} {s t : σ} {a : α} {as : List α}
    (meets : Meets step ok s (a :: as)) (stepped : step s a = some t) :
    Meets step ok t as := by
  have rest := meets.2
  rw [stepped] at rest
  exact rest

/-- What is left of the run after its first moves. -/
theorem Meets.rest {ok : σ → α → Prop} {s t : σ} {as bs : List α}
    (meets : Meets step ok s (as ++ bs)) (ran : run step s as = some t) : Meets step ok t bs := by
  induction as generalizing s with
  | nil =>
    cases ran
    exact meets
  | cons a as ih =>
    obtain ⟨s', stepped, ran⟩ := run_cons_eq_some.mp ran
    exact ih (meets.tail stepped) ran

theorem Meets.cons {ok : σ → α → Prop} {s t : σ} {a : α} {as : List α}
    (head : ok s a) (stepped : step s a = some t) (tail : Meets step ok t as) :
    Meets step ok s (a :: as) := by
  refine ⟨head, ?_⟩
  rw [stepped]
  exact tail

theorem Meets.of_forall {ok : σ → α → Prop} {as : List α} (all : ∀ a ∈ as, ∀ s, ok s a) (s : σ) :
    Meets step ok s as := by
  induction as generalizing s with
  | nil => trivial
  | cons a as ih =>
    refine ⟨all a List.mem_cons_self s, ?_⟩
    split
    · exact ih (fun b mem => all b (List.mem_cons_of_mem _ mem)) _
    · trivial

/-- Two conditions on the moves of one run. -/
theorem Meets.and {ok also : σ → α → Prop} {s : σ} {as : List α} (meets : Meets step ok s as)
    (other : Meets step also s as) : Meets step (fun s a => ok s a ∧ also s a) s as := by
  induction as generalizing s with
  | nil => trivial
  | cons a as ih =>
    refine ⟨⟨meets.head, other.head⟩, ?_⟩
    split
    · rename_i t stepped
      exact ih (meets.tail stepped) (other.tail stepped)
    · trivial

instance Meets.decidable (ok : σ → α → Prop) [∀ s a, Decidable (ok s a)] :
    ∀ (s : σ) (as : List α), Decidable (Meets step ok s as)
  | _, [] => isTrue trivial
  | s, a :: as =>
    have : Decidable (match step s a with
        | some s' => Meets step ok s' as
        | none => True) :=
      match step s a with
      | some s' => Meets.decidable ok s' as
      | none => isTrue trivial
    inferInstanceAs (Decidable (_ ∧ _))

/-- What every allowed move preserves holds after every allowed run. -/
theorem run_invariant {ok : σ → α → Prop} {I : σ → Prop}
    (preserved : ∀ s a s', I s → ok s a → step s a = some s' → I s') {s s' : σ} {as : List α}
    (init : I s) (meets : Meets step ok s as) (ran : run step s as = some s') : I s' := by
  induction as generalizing s with
  | nil =>
    cases ran
    exact init
  | cons a as ih =>
    obtain ⟨t, stepped, rest⟩ := run_cons_eq_some.mp ran
    exact ih (preserved s a t init meets.head stepped) (meets.tail stepped) rest

/-- The unguarded form of `run_invariant`. -/
theorem run_invariant_of_step {I : σ → Prop}
    (preserved : ∀ s a s', I s → step s a = some s' → I s') {s s' : σ} {as : List α}
    (init : I s) (ran : run step s as = some s') : I s' := by
  have always : Meets step (fun _ _ => True) s as := Meets.of_forall (fun _ _ _ => trivial) s
  exact run_invariant (fun s a s' held _ => preserved s a s' held) init always ran

/-- What one of many parts of a state is after another was set. -/
theorem update_cases {ι : Type*} {β : Type*} [DecidableEq ι] {f : ι → β} {i j : ι} {v w : β}
    (eq : Function.update f i v j = w) : j = i ∧ v = w ∨ j ≠ i ∧ f j = w := by
  by_cases here : j = i
  · rw [here, Function.update_self] at eq
    exact .inl ⟨here, eq⟩
  · rw [Function.update_of_ne here] at eq
    exact .inr ⟨here, eq⟩

end Lib
