import Mathlib.Data.List.Basic
import Mathlib.Logic.Function.Basic

/-!
# Following a table of values by what is said about it

A table holds a value, or none, for each subject `κ`, and each change is announced: the
new value itself, or that it is gone. A listener joins by being told the values there
are, and then hears the announcements in their order. `Follows` says that what it heard
last about a subject is what the table holds; `Recent` says the same of announcements
still to be made, which need not speak of every subject.

Main results: `Follows.say`, `Follows.retract` and `Recent.join`.
-/

namespace Lib.Feed

variable {κ β : Type*}

/-- Which announcements speak of a subject, and the one that its value is gone. -/
structure Topics (κ β : Type*) where
  about : κ → β → Bool
  gone : κ → β

/-- No announcement speaks of two subjects. -/
def Topics.Apart (T : Topics κ β) : Prop :=
  ∀ k k' t, T.about k t = true → T.about k' t = true → k = k'

/-- What was heard last. -/
def last (about : β → Bool) (heard : List β) : Option β := (heard.filter about).getLast?

section Last

variable {about : β → Bool} {t : β} {heard rest : List β}

@[simp] theorem last_nil : last about [] = none := rfl

/-- The last about something in a longer log. -/
theorem last_append (heard rest : List β) :
    last about (heard ++ rest) = (last about rest).or (last about heard) := by
  rw [last, List.filter_append, List.getLast?_append]
  rfl

theorem last_singleton (t : β) : last about [t] = if about t then some t else none := by
  rw [last, List.filter_cons, List.filter_nil]
  split <;> rfl

theorem last_concat (heard : List β) (t : β) :
    last about (heard ++ [t]) = if about t then some t else last about heard := by
  rw [last_append, last_singleton]
  split <;> rfl

theorem last_cons (t : β) (rest : List β) :
    last about (t :: rest) = (last about rest).or (if about t then some t else none) := by
  rw [← List.singleton_append, last_append, last_singleton]

/-- A log that is silent about something has no last about it. -/
theorem last_eq_none (silent : ∀ t ∈ heard, about t = false) : last about heard = none := by
  rw [last, List.filter_eq_nil_iff.mpr fun t mem => Bool.eq_false_iff.mp (silent t mem)]
  rfl

/-- The only one of its kind is the last. -/
theorem last_eq_some (mem : t ∈ heard) (speaks : about t = true)
    (alone : ∀ u ∈ heard, about u = true → u = t) : last about heard = some t := by
  have kept : t ∈ heard.filter about := List.mem_filter.mpr ⟨mem, speaks⟩
  rw [last, List.getLast?_eq_some_getLast (List.ne_nil_of_mem kept)]
  have final := List.mem_filter.mp (List.getLast_mem (List.ne_nil_of_mem kept))
  exact congrArg some (alone _ final.1 final.2)

end Last

section Follow

variable (T : Topics κ β)

/-- What was heard last agrees with the value. -/
def Agrees (k : κ) (value heard : Option β) : Prop :=
  heard = value ∨ value = none ∧ heard = some (T.gone k)

def Follows (current : κ → Option β) (heard : List β) : Prop :=
  ∀ k, Agrees T k (current k) (last (T.about k) heard)

def Recent (current : κ → Option β) (pending : List β) : Prop :=
  ∀ k, last (T.about k) pending = none ∨ Agrees T k (current k) (last (T.about k) pending)

variable {T} {current : κ → Option β} {heard pending : List β} {k : κ} {t : β}

/-- Who has heard everything has heard enough. -/
theorem Follows.recent (follows : Follows T current heard) : Recent T current heard :=
  fun k => .inr (follows k)

theorem recent_nil : Recent T current [] := fun _ => .inl rfl

theorem Recent.tail (recent : Recent T current (t :: pending)) : Recent T current pending := by
  intro k
  have all := recent k
  rw [last_cons] at all
  cases said : last (T.about k) pending with
  | none => exact .inl rfl
  | some u =>
    rw [said, Option.some_or] at all
    exact all

section Change

variable [DecidableEq κ] (apart : T.Apart) (speaks : T.about k t = true)
include apart speaks

theorem last_concat_about (heard : List β) (other : κ) : last (T.about other) (heard ++ [t]) =
    if other = k then some t else last (T.about other) heard := by
  rw [last_concat]
  by_cases same : other = k
  · rw [if_pos same, same, if_pos speaks]
  · rw [if_neg same, if_neg fun also => same (apart other k t also speaks)]

/-- A value is announced. -/
theorem Follows.say (follows : Follows T current heard) :
    Follows T (Function.update current k (some t)) (heard ++ [t]) := by
  intro other
  rw [last_concat_about apart speaks, Function.update_apply]
  split
  · exact .inl rfl
  · exact follows other

/-- Saying what is new keeps a log recent. -/
theorem Recent.say (recent : Recent T current pending) :
    Recent T (Function.update current k (some t)) (pending ++ [t]) := by
  intro other
  rw [last_concat_about apart speaks, Function.update_apply]
  split
  · exact .inr (.inl rfl)
  · exact recent other

end Change

section Gone

variable [DecidableEq κ] (apart : T.Apart) (speaks : T.about k (T.gone k) = true)
include apart speaks

/-- A value goes, and that is announced. -/
theorem Follows.retract (follows : Follows T current heard) :
    Follows T (Function.update current k none) (heard ++ [T.gone k]) := by
  intro other
  rw [last_concat_about apart speaks, Function.update_apply]
  split
  · rename_i same
    exact .inr ⟨rfl, congrArg (some <| T.gone ·) same.symm⟩
  · exact follows other

/-- Saying that something is gone keeps a log recent. -/
theorem Recent.retract (recent : Recent T current pending) :
    Recent T (Function.update current k none) (pending ++ [T.gone k]) := by
  intro other
  rw [last_concat_about apart speaks, Function.update_apply]
  split
  · rename_i same
    exact .inr (.inr ⟨rfl, congrArg (some <| T.gone ·) same.symm⟩)
  · exact recent other

end Gone

/-- What speaks of no subject changes nothing. -/
theorem last_append_silent (silent : ∀ t ∈ pending, ∀ k, T.about k t = false) (k : κ) :
    last (T.about k) (heard ++ pending) = last (T.about k) heard := by
  rw [last_append, last_eq_none fun t mem => silent t mem k, Option.none_or]

/-- Texts about nothing leave what was heard. -/
theorem Follows.append_silent (silent : ∀ t ∈ pending, ∀ k, T.about k t = false)
    (follows : Follows T current heard) : Follows T current (heard ++ pending) := fun k => by
  rw [last_append_silent silent]
  exact follows k

theorem Recent.append_silent {more : List β} (silent : ∀ t ∈ more, ∀ k, T.about k t = false)
    (recent : Recent T current pending) : Recent T current (pending ++ more) := fun k => by
  rw [last_append_silent silent]
  exact recent k

/-- Hearing the same again at once changes nothing. -/
theorem Follows.again (follows : Follows T current (heard ++ t :: pending)) :
    Follows T current (heard ++ [t] ++ t :: pending) := by
  intro k
  have before := follows k
  rw [last_append, last_cons] at before
  rw [List.append_assoc, last_append, last_append, last_cons, last_singleton]
  cases said : last (T.about k) pending with
  | some u =>
    rw [said] at before
    exact before
  | none =>
    rw [said] at before
    cases speaks : T.about k t with
    | true =>
      rw [speaks] at before
      exact before
    | false =>
      rw [speaks] at before
      exact before

/-- A listener that is told all there is, and then hears what was still to be announced. -/
theorem Recent.join (recent : Recent T current pending) {lines : List β}
    (all : ∀ k t, current k = some t → t ∈ lines ∧ T.about k t = true)
    (only : ∀ k, ∀ t ∈ lines, T.about k t = true → current k = some t) :
    Follows T current (lines ++ pending) := by
  intro k
  rw [last_append]
  have told : last (T.about k) lines = current k := by
    cases value : current k with
    | none =>
      refine last_eq_none fun t mem => Bool.eq_false_iff.mpr fun speaks => ?_
      have present := only k t mem speaks
      rw [value] at present
      cases present
    | some t =>
      refine last_eq_some (all k t value).1 (all k t value).2 fun u mem speaks => ?_
      exact Option.some.inj ((only k u mem speaks).symm.trans value)
  rcases recent k with silent | agrees
  · rw [silent, Option.none_or, told]
    exact .inl rfl
  · cases said : last (T.about k) pending with
    | none =>
      rw [Option.none_or, told]
      exact .inl rfl
    | some u => rwa [said] at agrees

end Follow

end Lib.Feed
