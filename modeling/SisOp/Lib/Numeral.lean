import Mathlib.Data.Nat.Digits.Lemmas

/-!
# Numerals in a text

Numbers written in a base, the highest digit first, and a scanner that takes the
digits a text starts with. What the scanner reads of a written number is the number
(`value_digits`, `value_padded`, `scan_append`).
-/

namespace Lib.Numeral

/-- The number some digits stand for. -/
def value (b : Nat) (digits : List Nat) : Nat := digits.foldl (fun n d => n * b + d) 0

/-- The digits of a number, none of them a leading zero unless it is zero. -/
def digits (b n : Nat) : List Nat := if n = 0 then [0] else (Nat.digits b n).reverse

/-- The last `width` digits of a number. -/
def padded (b width n : Nat) : List Nat :=
  (List.range width).map fun i => n / b ^ (width - 1 - i) % b

/-- A digit more at the end. -/
theorem value_concat (b : Nat) (ds : List Nat) (d : Nat) :
    value b (ds ++ [d]) = value b ds * b + d := by
  rw [value, List.foldl_append]
  rfl

theorem value_reverse (b : Nat) (ds : List Nat) : value b ds.reverse = Nat.ofDigits b ds := by
  induction ds with
  | nil => rfl
  | cons d ds ih =>
    rw [List.reverse_cons, value_concat, ih, Nat.ofDigits_cons, Nat.mul_comm, Nat.add_comm]

/-- The digits of a number give the number. -/
theorem value_digits (b n : Nat) : value b (digits b n) = n := by
  unfold digits
  split
  · rename_i zero
    rw [zero, value, List.foldl_cons, Nat.zero_mul]
    rfl
  · rw [value_reverse, Nat.ofDigits_digits]

theorem digits_ne_nil (b n : Nat) : digits b n ≠ [] := by
  unfold digits
  split
  · exact List.cons_ne_nil 0 []
  · rename_i positive
    rw [ne_eq, List.reverse_eq_nil_iff]
    exact Nat.digits_ne_nil_iff_ne_zero.mpr positive

theorem digits_lt {b : Nat} (base : 1 < b) (n : Nat) : ∀ d ∈ digits b n, d < b := by
  intro d mem
  unfold digits at mem
  split at mem
  · rw [List.mem_singleton.mp mem]
    exact Nat.zero_lt_of_lt base
  · exact Nat.digits_lt_base base (List.mem_reverse.mp mem)

/-- A number below a power of the base has that many digits at most. -/
theorem length_digits_le {b k n : Nat} (base : 1 < b) (positive : 0 < k) (fits : n < b ^ k) :
    (digits b n).length ≤ k := by
  unfold digits
  split
  · exact positive
  · rw [List.length_reverse]
    exact (Nat.digits_length_le_iff base n).mpr fits

theorem length_padded (b width n : Nat) : (padded b width n).length = width := by
  rw [padded, List.length_map, List.length_range]

theorem padded_succ (b width n : Nat) :
    padded b (width + 1) n = padded b width (n / b) ++ [n % b] := by
  rw [padded, List.range_succ, List.map_append, List.map_singleton, Nat.add_sub_cancel,
    Nat.sub_self, Nat.pow_zero, Nat.div_one]
  refine congrArg (· ++ [n % b]) (List.map_congr_left fun i mem => ?_)
  have earlier := List.mem_range.mp mem
  have step : width - i = width - 1 - i + 1 := by omega
  rw [step, Nat.pow_succ, Nat.mul_comm, ← Nat.div_div_eq_div_mul]

/-- With too few digits the number is taken modulo a power of the base. -/
theorem value_padded_mod (b width n : Nat) : value b (padded b width n) = n % b ^ width := by
  induction width generalizing n with
  | zero => rw [Nat.pow_zero, Nat.mod_one]; rfl
  | succ width ih =>
    rw [padded_succ, value_concat, ih, Nat.pow_succ, Nat.mul_comm (b ^ width), Nat.mod_mul,
      Nat.mul_comm b, Nat.add_comm]

/-- With enough digits a padded numeral gives the number. -/
theorem value_padded {b width n : Nat} (fits : n < b ^ width) : value b (padded b width n) = n := by
  rw [value_padded_mod, Nat.mod_eq_of_lt fits]

theorem padded_lt {b : Nat} (positive : 0 < b) (width n : Nat) : ∀ d ∈ padded b width n, d < b := by
  intro d mem
  obtain ⟨i, -, rfl⟩ := List.mem_map.mp mem
  exact Nat.mod_lt _ positive

section Scan

variable {α : Type*} (digit : α → Option Nat)

/-- The digits a text starts with, and what follows them. -/
def scan : List α → List Nat × List α
  | [] => ([], [])
  | c :: text =>
    match digit c with
    | some d => (d :: (scan text).1, (scan text).2)
    | none => ([], c :: text)

variable {digit}

/-- Digits are scanned up to the first character that is none. -/
theorem scan_append {text rest : List α} {ds : List Nat} (digits : text.map digit = ds.map some)
    (stops : ∀ c ∈ rest.head?, digit c = none) : scan digit (text ++ rest) = (ds, rest) := by
  induction text generalizing ds with
  | nil =>
    rw [List.map_nil, eq_comm, List.map_eq_nil_iff] at digits
    rw [digits, List.nil_append]
    cases rest with
    | nil => rfl
    | cons c rest => rw [scan, stops c rfl]
  | cons c text ih =>
    cases ds with
    | nil => cases digits
    | cons d ds =>
      obtain ⟨first, rest⟩ := List.cons.inj digits
      rw [List.cons_append, scan, first, ih rest]

end Scan

end Lib.Numeral
