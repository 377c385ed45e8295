import SisOp.Common.Protocol
import SisOp.Lib.Numeral

/-!
# Numbers and addresses in texts

Decimal numbers as the C++ library writes them, and the form `host:port` in which
messages and maps name a server.
-/

namespace SisOp

open Lib

/-- A digit of `%d`. -/
def decimalChar (d : Nat) : UInt8 := (0x30 + d).toUInt8

/-- `operator<<` and `std::to_string` of an unsigned number. -/
def unsignedText (n : Nat) : Bytes := (Numeral.digits 10 n).map decimalChar

/-- `':'`. -/
abbrev colon : UInt8 := 0x3A

/-- `'\n'`. -/
def newline : UInt8 := 0x0A

def hostPort (host : Bytes) (port : UInt16) : Bytes := host ++ colon :: unsignedText port.toNat

private theorem char_spec : ∀ d < 10, (decimalChar d).toNat - 0x30 = d ∧ decimalChar d ≠ colon := by
  decide

theorem map_unsignedText (n : Nat) :
    (unsignedText n).map (fun c => c.toNat - 0x30) = Numeral.digits 10 n := by
  rw [unsignedText, List.map_map]
  refine (List.map_congr_left fun d digit => ?_).trans (List.map_id _)
  exact (char_spec d (Numeral.digits_lt (by decide) n d digit)).1

/-- Read digit by digit it is the number again. -/
theorem value_unsignedText (n : Nat) :
    (unsignedText n).foldl (fun n c => n * 10 + (c.toNat - 0x30)) 0 = n := by
  have value := Numeral.value_digits 10 n
  rwa [← map_unsignedText, Numeral.value, List.foldl_map] at value

theorem unsignedText_inj {m n : Nat} : unsignedText m = unsignedText n ↔ m = n := by
  constructor
  · intro same
    rw [← value_unsignedText m, same, value_unsignedText]
  · rintro rfl
    rfl

/-- Only digits are written. -/
theorem digit_of_mem_unsignedText {n : Nat} {c : UInt8} (mem : c ∈ unsignedText n) :
    ∃ d < 10, decimalChar d = c := by
  obtain ⟨d, digit, eq⟩ := List.mem_map.mp mem
  exact ⟨d, Numeral.digits_lt (by decide) n d digit, eq⟩

theorem colon_not_mem_unsignedText (n : Nat) : colon ∉ unsignedText n := by
  intro mem
  obtain ⟨d, small, eq⟩ := digit_of_mem_unsignedText mem
  exact (char_spec d small).2 eq

private theorem append_colon_inj {a b : Bytes} {m n : Nat}
    (same : a ++ colon :: unsignedText m = b ++ colon :: unsignedText n)
    (shorter : a.length ≤ b.length) : a = b ∧ m = n := by
  obtain ⟨more, rfl⟩ : a <+: b := by
    have front : a <+: b ++ colon :: unsignedText n := same ▸ List.prefix_append a _
    exact List.prefix_of_prefix_length_le front (List.prefix_append b _) shorter
  rw [List.append_assoc, List.append_cancel_left_eq] at same
  cases more with
  | nil => exact ⟨(List.append_nil a).symm, unsignedText_inj.mp (List.cons.inj same).2⟩
  | cons c more =>
    refine absurd ?_ (colon_not_mem_unsignedText m)
    rw [(List.cons.inj same).2]
    exact List.mem_append_right _ List.mem_cons_self

/-- The port is what follows the last colon. -/
theorem hostPort_inj {host host' : Bytes} {port port' : UInt16} :
    hostPort host port = hostPort host' port' ↔ host = host' ∧ port = port' := by
  constructor
  · intro same
    have parts : host = host' ∧ port.toNat = port'.toNat := by
      rcases Nat.le_total host.length host'.length with le | le
      · exact append_colon_inj same le
      · exact (append_colon_inj same.symm le).imp Eq.symm Eq.symm
    exact parts.imp_right UInt16.toNat_inj.mp
  · rintro ⟨rfl, rfl⟩
    rfl

end SisOp
