import Mathlib.Algebra.Ring.Nat
import Mathlib.Data.List.Basic

/-!
# Parsers of a byte stream and the encodings they invert

A `Parser` consumes a prefix of its input or fails. `Parses r bs a` says that
`r` reads `bs` as `a` whatever follows, which is what composes: a sequence of
fields is read by the sequence of their parsers (`Parses.bind`), a counted list
by its parser repeated (`Parses.repeat`). A `Steady` parser reads the same
whatever follows the bytes it consumes; it fails on every proper prefix of an
encoding it parses (`Parses.cut`).
-/

namespace Lib

variable {β α γ : Type}

/-- A parser of symbols `β`: `none` when the input is not in its language. -/
abbrev Parser (β α : Type) := StateT (List β) Option α

namespace Parser

/-- The next `n` symbols. -/
def take (n : Nat) : Parser β (List β) := fun input =>
  if input.length < n then none else some (input.take n, input.drop n)

/-- `r` run `n` times. -/
def «repeat» (r : Parser β α) : Nat → Parser β (List α)
  | 0 => pure []
  | n + 1 => do
    let a ← r
    let as ← r.repeat n
    pure (a :: as)

end Parser

/-- `r` reads `bs` as `a`, and stops there, whatever follows. -/
def Parses (r : Parser β α) (bs : List β) (a : α) : Prop :=
  ∀ rest, r.run (bs ++ rest) = some (a, rest)

namespace Parses

variable {r : Parser β α} {bs cs : List β} {a : α}

theorem run_eq (parses : Parses r bs a) (rest : List β) :
    r.run (bs ++ rest) = some (a, rest) := parses rest

theorem run_self (parses : Parses r bs a) : r.run bs = some (a, []) := by
  have all := parses []
  rwa [List.append_nil] at all

theorem pure (a : α) : Parses (Pure.pure a : Parser β α) [] a := fun _ => rfl

theorem bind {k : α → Parser β γ} {c : γ} (first : Parses r bs a) (next : Parses (k a) cs c) :
    Parses (r >>= k) (bs ++ cs) c := by
  intro rest
  rw [StateT.run_bind, List.append_assoc, first]
  exact next rest

/-- The last field of a record. -/
theorem bind_pure {f : α → γ} (last : Parses r bs a) :
    Parses (r >>= fun a => Pure.pure (f a)) bs (f a) := by
  have read := last.bind (k := fun a => Pure.pure (f a)) (Parses.pure (f a))
  rwa [List.append_nil] at read

theorem map {f : α → γ} (parses : Parses r bs a) : Parses (f <$> r) bs (f a) := by
  intro rest
  rw [StateT.run_map, parses]
  rfl

theorem take (bs : List β) : Parses (Parser.take bs.length) bs bs := by
  intro rest
  simp only [StateT.run, Parser.take, List.length_append, List.take_left, List.drop_left]
  rw [if_neg (by omega)]

/-- A list written item by item is read by the item's parser repeated. -/
theorem «repeat» {enc : α → List β} {as : List α} (each : ∀ a ∈ as, Parses r (enc a) a) :
    Parses (r.repeat as.length) (as.flatMap enc) as := by
  induction as with
  | nil => exact Parses.pure []
  | cons a as ih =>
    have tail := ih fun b mem => each b (List.mem_cons_of_mem _ mem)
    rw [List.flatMap_cons]
    exact (each a List.mem_cons_self).bind (tail.bind_pure (f := (a :: ·)))

/-- The counted form for a writer that can refuse an item. -/
theorem mapM {w : α → Option (List β)} {as : List α} {es : List (List β)}
    (each : ∀ a ∈ as, ∀ e, w a = some e → Parses r e a) (written : as.mapM w = some es) :
    Parses (r.repeat as.length) es.flatten as := by
  induction as generalizing es with
  | nil =>
    cases written
    exact Parses.pure []
  | cons a as ih =>
    rw [List.mapM_cons] at written
    obtain ⟨e, head, written⟩ := Option.bind_eq_some_iff.mp written
    obtain ⟨rest, tail, last⟩ := Option.bind_eq_some_iff.mp written
    cases last
    exact (each a List.mem_cons_self e head).bind
      ((ih (fun b mem => each b (List.mem_cons_of_mem _ mem)) tail).bind_pure (f := (a :: ·)))

end Parses

/-! ## Truncated input -/

/-- What follows the symbols a parser consumes does not change what it reads. -/
def Steady (r : Parser β α) : Prop :=
  ∀ input a rest, r.run input = some (a, rest) →
    ∀ more, r.run (input ++ more) = some (a, rest ++ more)

namespace Steady

variable {r : Parser β α}

theorem pure (a : α) : Steady (Pure.pure a : Parser β α) := by
  intro input b rest read more
  cases read
  rfl

theorem failure : Steady (Alternative.failure : Parser β α) := by
  intro input a rest read
  cases read

theorem bind {k : α → Parser β γ} (first : Steady r) (next : ∀ a, Steady (k a)) :
    Steady (r >>= k) := by
  intro input c rest read more
  rw [StateT.run_bind] at read ⊢
  obtain ⟨⟨a, left⟩, head, tail⟩ := Option.bind_eq_some_iff.mp read
  rw [first input a left head more]
  exact next a left c rest tail more

theorem map {f : α → γ} (steady : Steady r) : Steady (f <$> r) := by
  rw [map_eq_pure_bind]
  exact steady.bind fun a => Steady.pure (f a)

theorem take (n : Nat) : Steady (Parser.take n : Parser β (List β)) := by
  intro input a rest read more
  simp only [StateT.run, Parser.take] at read ⊢
  by_cases short : input.length < n
  · rw [if_pos short] at read
    cases read
  · rw [if_neg short] at read
    cases read
    have enough : n ≤ input.length := Nat.not_lt.mp short
    rw [if_neg (by rw [List.length_append]; omega), List.take_append_of_le_length enough,
      List.drop_append_of_le_length enough]

theorem «repeat» (steady : Steady r) (n : Nat) : Steady (r.repeat n) := by
  induction n with
  | zero => exact Steady.pure []
  | succ n ih => exact steady.bind fun a => ih.bind fun as => Steady.pure (a :: as)

end Steady

/-- A parser that accepted a proper prefix would leave part of the whole unread. -/
theorem Parses.cut {r : Parser β α} {front tail : List β} {a : α} (steady : Steady r)
    (parses : Parses r (front ++ tail) a) (proper : tail ≠ []) : r.run front = none := by
  cases read : r.run front with
  | none => rfl
  | some result =>
    obtain ⟨b, rest⟩ := result
    have whole := steady front b rest read tail
    rw [parses.run_self, Option.some.injEq, Prod.mk.injEq] at whole
    exact absurd (List.append_eq_nil_iff.mp whole.2.symm).2 proper

/-- A list can be written when each of its items can. -/
theorem mapM_isSome_iff {w : α → Option γ} {as : List α} :
    (as.mapM w).isSome ↔ ∀ a ∈ as, (w a).isSome := by
  induction as with
  | nil => simp
  | cons a as ih =>
    rw [List.mapM_cons, List.forall_mem_cons, ← ih]
    cases w a with
    | none => simp
    | some e => cases as.mapM w <;> simp

/-- The size of what is written is the sum of the sizes of the items. -/
theorem length_flatten_of_mapM {w : α → Option (List β)} {size : α → Nat} {as : List α}
    {es : List (List β)} (each : ∀ a ∈ as, ∀ e, w a = some e → e.length = size a)
    (written : as.mapM w = some es) : es.flatten.length = (as.map size).sum := by
  induction as generalizing es with
  | nil =>
    cases written
    rfl
  | cons a as ih =>
    rw [List.mapM_cons] at written
    obtain ⟨e, head, written⟩ := Option.bind_eq_some_iff.mp written
    obtain ⟨rest, tail, last⟩ := Option.bind_eq_some_iff.mp written
    cases last
    rw [List.flatten_cons, List.length_append, each a List.mem_cons_self e head,
      ih (fun b mem => each b (List.mem_cons_of_mem _ mem)) tail, List.map_cons, List.sum_cons]

end Lib
