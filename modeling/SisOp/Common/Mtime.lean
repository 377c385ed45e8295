import SisOp.Common.Files
import Mathlib.Tactic.Linarith

/-!
# Modification times

`mtime_of` and `set_mtime` of `common/files.cpp`. A file system keeps seconds and
nanoseconds; what travels is one signed count of nanoseconds, made by a product
that can overflow and taken apart by a division that rounds towards zero.

Main result: `copied_iff`, the times that arrive as they were.
-/

namespace SisOp.Mtime

open Lib

/-- `struct timespec`, with 64-bit `time_t` and `long`. -/
structure Timespec where
  sec : Int64
  nsec : Int64
  deriving DecidableEq, Repr

/-- What a file system keeps and `utimensat` accepts. -/
def Timespec.Valid (t : Timespec) : Prop := 0 ≤ t.nsec ∧ t.nsec < 1000000000

instance (t : Timespec) : Decidable t.Valid := inferInstanceAs (Decidable (_ ∧ _))

/-- The time in nanoseconds. -/
def Timespec.value (t : Timespec) : Int := t.sec.toInt * 1000000000 + t.nsec.toInt

/-- Values of `int64_t`. -/
def Fits (n : Int) : Prop := -2 ^ 63 ≤ n ∧ n < 2 ^ 63

instance (n : Int) : Decidable (Fits n) := inferInstanceAs (Decidable (_ ∧ _))

/-- The result of signed arithmetic; an overflow has none. -/
def signed (n : Int) : Option Int64 := if Fits n then some (Int64.ofInt n) else none

def mtimeOf (st : Timespec) : Option Int64 := do
  let scaled ← signed (st.sec.toInt * 1000000000)
  signed (scaled.toInt + st.nsec.toInt)

/-- The time `set_mtime` asks for. -/
def times (mtimeNs : Int64) : Timespec := ⟨mtimeNs / 1000000000, mtimeNs % 1000000000⟩

/-- `set_mtime` on a file with some time: the time after it, and the result. -/
def setMtime (before : Timespec) (mtimeNs : Int64) : Timespec × Bool :=
  if (times mtimeNs).Valid then (times mtimeNs, true) else (before, false)

/-- What the receiver reads of a file with this time. -/
def announce (st : Timespec) (name : Bytes) (size : UInt64) : Option FileInfo := do
  let mtimeNs ← mtimeOf st
  let header ← writeFileHeader ⟨name, size, mtimeNs, 0⟩
  let (info, _) ← readFileHeader.run header
  pure info

/-- The time arrives: the receiver's file gets it whatever time it had, and looks
afterwards as it was announced. -/
def Copied (st : Timespec) : Prop :=
  ∀ (name : Bytes) (size : UInt64) (before : Timespec), name.length ≤ 0xFFFF →
    ∃ info, announce st name size = some info ∧ info.name = name ∧ info.size = size ∧
      (times info.mtimeNs).Valid ∧ setMtime before info.mtimeNs = (st, true) ∧
        mtimeOf st = some info.mtimeNs

/-! ## Both directions -/

section Signed

variable {n : Int} {v : Int64}

theorem toInt_of_signed (result : signed n = some v) : v.toInt = n := by
  unfold signed at result
  split at result
  · rename_i fits
    cases result
    exact Int64.toInt_ofInt_of_le fits.1 fits.2
  · cases result

theorem signed_of_fits (fits : Fits n) : ∃ v, signed n = some v ∧ v.toInt = n :=
  ⟨_, if_pos fits, Int64.toInt_ofInt_of_le fits.1 fits.2⟩

end Signed

variable {st : Timespec} {ns : Int64}

theorem value_of_mtimeOf (result : mtimeOf st = some ns) : ns.toInt = st.value := by
  obtain ⟨scaled, product, sum⟩ := Option.bind_eq_some_iff.mp result
  rw [toInt_of_signed sum, toInt_of_signed product, Timespec.value]

theorem valid_iff : st.Valid ↔ 0 ≤ st.nsec.toInt ∧ st.nsec.toInt < 1000000000 := by
  rw [Timespec.Valid, Int64.le_iff_toInt_le, Int64.lt_iff_toInt_lt]
  exact Iff.rfl

/-- The product does not overflow unless the second is cut short from below. -/
theorem mtimeOf_isSome (valid : st.Valid) (fits : Fits st.value)
    (whole : 0 ≤ st.sec ∨ st.nsec = 0) : ∃ ns, mtimeOf st = some ns ∧ ns.toInt = st.value := by
  have fraction := valid_iff.mp valid
  have scaledFits : Fits (st.sec.toInt * 1000000000) := by
    unfold Fits Timespec.value at *
    rcases whole with after | exact_
    · have positive : 0 ≤ st.sec.toInt := Int64.le_iff_toInt_le.mp after
      omega
    · have zero : st.nsec.toInt = 0 := by rw [exact_]; rfl
      omega
  obtain ⟨scaled, product, scaledEq⟩ := signed_of_fits scaledFits
  have sumFits : Fits (scaled.toInt + st.nsec.toInt) := by rwa [scaledEq]
  obtain ⟨ns, sum, sumEq⟩ := signed_of_fits sumFits
  refine ⟨ns, ?_, ?_⟩
  · rw [mtimeOf, product]
    exact sum
  · rw [sumEq, scaledEq, Timespec.value]

/-- Rounding towards zero gives back the second and its fraction unless both count. -/
theorem tdiv_tmod_iff {s n b : Int} (lower : 0 ≤ n) (upper : n < b) :
    (s * b + n).tdiv b = s ∧ (s * b + n).tmod b = n ↔ 0 ≤ s ∨ n = 0 := by
  constructor
  · rintro ⟨-, rest⟩
    by_contra! neither
    obtain ⟨before, fraction⟩ := neither
    have negative : s * b + n < 0 := by nlinarith
    have mirrored := Int.tmod_nonneg b (Int.neg_nonneg_of_nonpos (Int.le_of_lt negative))
    rw [Int.neg_tmod, rest] at mirrored
    omega
  · rintro (after | rfl)
    · have positive : 0 ≤ s * b + n :=
        Int.add_nonneg (Int.mul_nonneg after (Int.le_trans lower (Int.le_of_lt upper))) lower
      rw [Int.tdiv_eq_ediv_of_nonneg positive, Int.tmod_eq_emod_of_nonneg positive,
        Int.add_comm, Int.add_mul_ediv_right _ _ (by omega), Int.add_mul_emod_self_right,
        Int.ediv_eq_zero_of_lt lower upper, Int.emod_eq_of_lt lower upper, Int.zero_add]
      exact ⟨rfl, rfl⟩
    · rw [Int.add_zero, Int.mul_tdiv_cancel _ (by omega), Int.mul_tmod_left]
      exact ⟨rfl, rfl⟩

theorem toInt_times (ns : Int64) :
    (times ns).sec.toInt = ns.toInt.tdiv 1000000000 ∧
      (times ns).nsec.toInt = ns.toInt.tmod 1000000000 := by
  have billion : (1000000000 : Int64).toInt = 1000000000 := rfl
  constructor
  · rw [times, Int64.toInt_div_of_ne_right _ _ (by decide), billion]
  · rw [times, Int64.toInt_mod, billion]

/-- Taken apart again the time is the one it was, or is not accepted. -/
theorem times_eq_iff (valid : st.Valid) (value : ns.toInt = st.value) :
    times ns = st ↔ 0 ≤ st.sec ∨ st.nsec = 0 := by
  have fraction := valid_iff.mp valid
  obtain ⟨sec, nsec⟩ := toInt_times ns
  rw [value, Timespec.value] at sec nsec
  have parts : times ns = st ↔
      (times ns).sec.toInt = st.sec.toInt ∧ (times ns).nsec.toInt = st.nsec.toInt := by
    rw [Int64.toInt_inj, Int64.toInt_inj]
    constructor
    · rintro rfl
      exact ⟨rfl, rfl⟩
    · rintro ⟨same, same'⟩
      cases st
      cases same
      cases same'
      rfl
  rw [parts, sec, nsec, tdiv_tmod_iff fraction.1 fraction.2, Int64.le_iff_toInt_le,
    ← Int64.toInt_inj]
  exact Iff.rfl

theorem announce_eq (name : Bytes) (size : UInt64) (short : name.length ≤ 0xFFFF)
    (result : mtimeOf st = some ns) : announce st name size = some ⟨name, size, ns, 0⟩ := by
  obtain ⟨header, written⟩ := writeFileHeader_isSome ⟨name, size, ns, 0⟩ short
  rw [announce, result, Option.bind_eq_bind, Option.bind_some, written, Option.bind_eq_bind,
    Option.bind_some, (parses_fileHeader written).run_self]
  rfl

/-- **A time is copied exactly when it is not before 1970 or has no fraction of a
second.** -/
theorem copied_iff (st : Timespec) (valid : st.Valid) (fits : Fits st.value) :
    Copied st ↔ 0 ≤ st.sec ∨ st.nsec = 0 := by
  constructor
  · intro copied
    obtain ⟨info, -, -, -, accepted, set, result⟩ := copied [] 0 st (Nat.zero_le _)
    rw [setMtime, if_pos accepted] at set
    exact (times_eq_iff valid (value_of_mtimeOf result)).mp (Prod.mk.inj set).1
  · intro whole name size before short
    obtain ⟨ns, result, value⟩ := mtimeOf_isSome valid fits whole
    have same := (times_eq_iff valid value).mpr whole
    refine ⟨_, announce_eq name size short result, rfl, rfl, ?_, ?_, result⟩
    · rw [same]
      exact valid
    · rw [setMtime, same, if_pos valid]

/-- A time of today. -/
theorem copied_today : Copied ⟨1792540800, 123456789⟩ :=
  (copied_iff ⟨1792540800, 123456789⟩ (by decide) (by decide)).mpr (.inl (by decide))

/-- Half a second before 1970: the nanoseconds asked for are negative, and the file
keeps the time it has. -/
theorem half_second_refused :
    (⟨-1, 500000000⟩ : Timespec).Valid ∧ Fits (⟨-1, 500000000⟩ : Timespec).value ∧
      announce ⟨-1, 500000000⟩ (bytes "a") 0 = some ⟨bytes "a", 0, -500000000, 0⟩ ∧
        setMtime ⟨1792540800, 0⟩ (-500000000) = (⟨1792540800, 0⟩, false) ∧
          ¬Copied ⟨-1, 500000000⟩ := by
  have read : announce ⟨-1, 500000000⟩ (bytes "a") 0 = some ⟨bytes "a", 0, -500000000, 0⟩ := by
    decide +kernel
  refine ⟨by decide, by decide, read, by decide, fun copied => ?_⟩
  obtain ⟨info, received, -, -, accepted, -, -⟩ := copied (bytes "a") 0 ⟨0, 0⟩ (by decide)
  rw [read] at received
  cases received
  revert accepted
  decide

/-- At the lower end of the range the product overflows although the sum fits. -/
example : Fits (⟨-9223372037, 145224192⟩ : Timespec).value ∧
    mtimeOf ⟨-9223372037, 145224192⟩ = none := by decide

end SisOp.Mtime
