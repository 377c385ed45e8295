import SisOp.Common.Files
import SisOp.Common.Text

/-!
# Account records

`server/accounts.cpp`: one record a user, `scheme$iterations$salt$hash` with the
salt and the hash in hexadecimal. A file is only written with a record that
`is_valid_record` accepts, so the store keeps records of that kind.
-/

namespace SisOp

open Lib Std

def SCHEME : Bytes := bytes "pbkdf2-sha256"
def HASH_SIZE : Nat := 32

/-- `'$'`. -/
abbrev dollar : UInt8 := 0x24

private def digit (c : UInt8) : Option Nat :=
  if 0x30 ≤ c ∧ c ≤ 0x39 then some (c.toNat - 0x30)
  else if 0x61 ≤ c ∧ c ≤ 0x66 then some (c.toNat - 0x61 + 10)
  else none

def fromHex : Bytes → Option Bytes
  | [] => some []
  | [_] => none
  | high :: low :: text => do
    let h ← digit high
    let l ← digit low
    let rest ← fromHex text
    pure ((h * 16 + l).toUInt8 :: rest)

structure ParsedRecord where
  iterations : Nat
  salt : Bytes
  hash : Bytes
  deriving DecidableEq, Repr

/-- The fields `std::getline` reads: a final `$` ends the last one. -/
private def fields (record : Bytes) : List Bytes :=
  let split := record.splitOn dollar
  if split.getLast? = some [] then split.dropLast else split

def parse (record : Bytes) : Option ParsedRecord :=
  match fields record with
  | [scheme, iterations, salt, hash] =>
    if scheme ≠ SCHEME || iterations.isEmpty ||
        !(iterations.all fun c => decide (0x30 ≤ c) && decide (c ≤ 0x39)) ||
        decide (iterations.length > 9) then none
    else
      let count := iterations.foldl (fun n c => n * 10 + (c.toNat - 0x30)) 0
      match fromHex salt, fromHex hash with
      | some s, some h =>
        if 0 < count ∧ s ≠ [] ∧ h.length = HASH_SIZE then some ⟨count, s, h⟩ else none
      | _, _ => none
  | _ => none

def isValidRecord (record : Bytes) : Bool := (parse record).isSome

/-! ## Making and checking a record -/

def ITERATIONS : Nat := 100000

/-- One digit of `to_hex`. -/
def hexDigit (n : Nat) : UInt8 := if n < 10 then (0x30 + n).toUInt8 else (0x57 + n).toUInt8

def toHex (data : Bytes) : Bytes :=
  data.flatMap fun b => [hexDigit (b.toNat / 16), hexDigit (b.toNat % 16)]

private theorem digit_hexDigit : ∀ n < 16, digit (hexDigit n) = some n ∧ hexDigit n ≠ dollar := by
  decide

/-- `from_hex` reads what `to_hex` writes. -/
theorem fromHex_toHex (data : Bytes) : fromHex (toHex data) = some data := by
  induction data with
  | nil => rfl
  | cons b data ih =>
    have high : b.toNat / 16 < 16 := Nat.div_lt_of_lt_mul b.toNat_lt
    have low : b.toNat % 16 < 16 := Nat.mod_lt _ (by decide)
    have byte : (b.toNat / 16 * 16 + b.toNat % 16).toUInt8 = b := by
      rw [Nat.div_add_mod']
      exact UInt8.ofNat_toNat
    rw [toHex, List.flatMap_cons, ← toHex]
    simp only [List.cons_append, List.nil_append, fromHex, (digit_hexDigit _ high).1,
      (digit_hexDigit _ low).1, ih]
    exact congrArg (fun c => some (c :: data)) byte

/-- The separator is no digit. -/
theorem dollar_not_mem_toHex (data : Bytes) : dollar ∉ toHex data := by
  intro mem
  obtain ⟨b, -, digits⟩ := List.mem_flatMap.mp mem
  rcases List.mem_cons.mp digits with eq | rest
  · exact (digit_hexDigit _ (Nat.div_lt_of_lt_mul b.toNat_lt)).2 eq.symm
  · exact (digit_hexDigit _ (Nat.mod_lt _ (by decide))).2 (List.mem_singleton.mp rest).symm

/-- The text `make_record` puts together. -/
def formatRecord (iterations : Nat) (salt hash : Bytes) : Bytes :=
  SCHEME ++ dollar :: (unsignedText iterations ++ dollar :: (toHex salt ++ dollar :: toHex hash))

private theorem decimalChar_spec : ∀ d < 10, decimalChar d ≠ dollar ∧
    (decide (0x30 ≤ decimalChar d) && decide (decimalChar d ≤ 0x39)) = true ∧
      (decimalChar d).toNat - 0x30 = d := by
  decide

/-- A record is cut where its fields meet. -/
private theorem fields_formatRecord {iterations : Nat} {salt hash : Bytes} (filled : hash ≠ []) :
    fields (formatRecord iterations salt hash) =
      [SCHEME, unsignedText iterations, toHex salt, toHex hash] := by
  have count : dollar ∉ unsignedText iterations := by
    intro mem
    obtain ⟨d, small, eq⟩ := digit_of_mem_unsignedText mem
    exact (decimalChar_spec d small).1 eq
  have split : (formatRecord iterations salt hash).splitOn dollar =
      [SCHEME, unsignedText iterations, toHex salt, toHex hash] := by
    rw [formatRecord, List.splitOn_append_cons_self, List.splitOn_append_cons_self,
      List.splitOn_append_cons_self, List.splitOn_eq_singleton (by decide),
      List.splitOn_eq_singleton count, List.splitOn_eq_singleton (dollar_not_mem_toHex salt),
      List.splitOn_eq_singleton (dollar_not_mem_toHex hash)]
    rfl
  have nonempty : toHex hash ≠ [] := by
    cases hash with
    | nil => exact absurd rfl filled
    | cons b rest => nofun
  rw [fields, split, if_neg]
  exact fun last => nonempty (Option.some.inj last)

/-- A record is read back as it was put together. -/
theorem parse_formatRecord {iterations : Nat} {salt hash : Bytes} (positive : 0 < iterations)
    (fits : iterations < 10 ^ 9) (filled : salt ≠ []) (size : hash.length = HASH_SIZE) :
    parse (formatRecord iterations salt hash) = some ⟨iterations, salt, hash⟩ := by
  have hashed : hash ≠ [] := by
    rintro rfl
    cases size
  have counted : unsignedText iterations ≠ [] :=
    mt List.map_eq_nil_iff.mp (Numeral.digits_ne_nil 10 iterations)
  have digits : (unsignedText iterations).all
      (fun c => decide (0x30 ≤ c) && decide (c ≤ 0x39)) = true := by
    rw [List.all_eq_true]
    intro c mem
    obtain ⟨d, small, rfl⟩ := digit_of_mem_unsignedText mem
    exact (decimalChar_spec d small).2.1
  have short : (unsignedText iterations).length ≤ 9 := by
    rw [unsignedText, List.length_map]
    exact Numeral.length_digits_le (by decide) (by decide) fits
  rw [parse, fields_formatRecord hashed]
  dsimp only
  rw [if_neg, fromHex_toHex, fromHex_toHex, value_unsignedText]
  · dsimp only
    rw [if_pos ⟨positive, filled, size⟩]
  · simp only [ne_eq, not_true_eq_false, decide_false, Bool.false_or, digits, Bool.not_true,
      Bool.or_false, Bool.or_eq_true, List.isEmpty_iff, counted, decide_eq_true_eq, false_or]
    omega

/-! ## The characters of a record -/

private theorem mem_intercalate {c sep : UInt8} {parts : List Bytes}
    (mem : c ∈ [sep].intercalate parts) : c = sep ∨ ∃ part ∈ parts, c ∈ part := by
  induction parts with
  | nil => cases mem
  | cons first parts ih =>
    cases parts with
    | nil =>
      rw [List.intercalate_singleton] at mem
      exact .inr ⟨first, List.mem_cons_self, mem⟩
    | cons second parts =>
      rw [List.intercalate_cons_cons, List.append_assoc] at mem
      rcases List.mem_append.mp mem with here | mem
      · exact .inr ⟨first, List.mem_cons_self, here⟩
      · rcases List.mem_append.mp mem with between | mem
        · exact .inl (List.mem_singleton.mp between)
        · exact (ih mem).imp_right fun ⟨part, later, inside⟩ =>
            ⟨part, List.mem_cons_of_mem _ later, inside⟩

private theorem mem_fields {record : Bytes} {c : UInt8} (mem : c ∈ record) :
    c = dollar ∨ ∃ field ∈ fields record, c ∈ field := by
  have joined : [dollar].intercalate (record.splitOn dollar) = record :=
    List.intercalate_splitOn dollar
  rw [← joined] at mem
  refine (mem_intercalate mem).imp_right fun ⟨part, there, inside⟩ => ⟨part, ?_, inside⟩
  unfold fields
  dsimp only
  split
  · rename_i last
    have whole := List.dropLast_append_getLast? [] last
    rw [← whole] at there
    rcases List.mem_append.mp there with kept | empty
    · exact kept
    · rw [List.mem_singleton.mp empty] at inside
      cases inside
  · exact there

private theorem newline_not_mem_of_fromHex {text data : Bytes} (read : fromHex text = some data) :
    newline ∉ text := by
  have digits : digit newline = none := by decide
  induction text using fromHex.induct generalizing data with
  | case1 => exact List.not_mem_nil
  | case2 => cases read
  | case3 high low text ih =>
    obtain ⟨h, first, read⟩ := Option.bind_eq_some_iff.mp read
    obtain ⟨l, second, read⟩ := Option.bind_eq_some_iff.mp read
    obtain ⟨rest, others, -⟩ := Option.bind_eq_some_iff.mp read
    intro mem
    rcases List.mem_cons.mp mem with rfl | mem
    · cases digits.symm.trans first
    · rcases List.mem_cons.mp mem with rfl | mem
      · cases digits.symm.trans second
      · exact ih others mem

/-- What `parse` accepts has the four fields. -/
private theorem parse_eq_some {record : Bytes} {parsed : ParsedRecord}
    (read : parse record = some parsed) :
    ∃ iterations salt hash, fields record = [SCHEME, iterations, salt, hash] ∧
      (∀ c ∈ iterations, 0x30 ≤ c) ∧ fromHex salt = some parsed.salt ∧
        fromHex hash = some parsed.hash := by
  unfold parse at read
  split at read
  · rename_i scheme iterations salt hash split
    split at read
    · cases read
    · rename_i checked
      simp only [Bool.or_eq_true, decide_eq_true_eq, not_or, ne_eq, not_not, Bool.not_eq_true',
        Bool.not_eq_false, List.all_eq_true, Bool.and_eq_true] at checked
      obtain ⟨⟨⟨rfl, -⟩, digits⟩, -⟩ := checked
      dsimp only at read
      split at read
      · rename_i s h salted hashed
        split at read
        · cases read
          exact ⟨iterations, salt, hash, split, fun c mem => (digits c mem).1, salted, hashed⟩
        · cases read
      · cases read
  · cases read

/-- A record is one line. -/
theorem newline_not_mem_of_isValidRecord {record : Bytes} (valid : isValidRecord record = true) :
    newline ∉ record := by
  obtain ⟨parsed, read⟩ := Option.isSome_iff_exists.mp valid
  obtain ⟨iterations, salt, hash, split, digits, salted, hashed⟩ := parse_eq_some read
  intro mem
  rcases mem_fields mem with separator | ⟨field, there, inside⟩
  · exact absurd separator (by decide)
  · rw [split] at there
    simp only [List.mem_cons, List.not_mem_nil, or_false] at there
    rcases there with rfl | rfl | rfl | rfl
    · exact absurd inside (by decide +kernel)
    · exact absurd (digits _ inside) (by decide)
    · exact newline_not_mem_of_fromHex salted inside
    · exact newline_not_mem_of_fromHex hashed inside

section Derive

variable (derive : Bytes → Bytes → Nat → Option Bytes)

/-- `make_record`, with what the random generator gave; `none` stands for the empty
string it returns on a failure. -/
def makeRecord (password : Bytes) (random : Option Bytes) : Option Bytes := do
  let salt ← random
  let hash ← derive password salt ITERATIONS
  pure (SCHEME ++ dollar :: (bytes "100000" ++ dollar :: (toHex salt ++ dollar :: toHex hash)))

def verify (record password : Bytes) : Bool :=
  match parse record with
  | some parsed => derive password parsed.salt parsed.iterations == some parsed.hash
  | none => false

variable {derive}

/-- `make_record` writes a record of the format, when the derivation succeeds. -/
theorem makeRecord_eq (password salt : Bytes) : makeRecord derive password (some salt) =
    (derive password salt ITERATIONS).map fun hash => formatRecord ITERATIONS salt hash := by
  have count : bytes "100000" = unsignedText ITERATIONS := by decide +kernel
  simp only [makeRecord, formatRecord, count, Option.bind_eq_bind, Option.bind_some]
  cases derive password salt ITERATIONS <;> rfl

/-- What verifies are the passwords of the stored hash. -/
theorem verify_iff {record : Bytes} {parsed : ParsedRecord} (read : parse record = some parsed)
    (password : Bytes) : verify derive record password = true ↔
      derive password parsed.salt parsed.iterations = some parsed.hash := by
  rw [verify, read]
  exact beq_iff_eq

end Derive

/-- The accounts on disk. -/
structure Accounts where
  records : ExtTreeMap Bytes { record : Bytes // isValidRecord record = true }

namespace Accounts

instance : EmptyCollection Accounts where
  emptyCollection := ⟨∅⟩

/-- `Accounts::get`. -/
def get (a : Accounts) (user : Bytes) : Option Bytes := a.records[user]?.map Subtype.val

/-- `Accounts::put` of a record that was checked. -/
def put (a : Accounts) (user record : Bytes) (valid : isValidRecord record = true) : Accounts :=
  ⟨a.records.insert user ⟨record, valid⟩⟩

/-- `Accounts::create`, which keeps an account that exists. -/
def create (a : Accounts) (user record : Bytes) (valid : isValidRecord record = true) :
    Accounts × Bool :=
  if user ∈ a.records then (a, false) else (a.put user record valid, true)

/-- `Accounts::all`, in user order. -/
def all (a : Accounts) : List (Bytes × Bytes) :=
  (a.records.toList.filter fun entry => isValidUsername entry.1).map fun entry =>
    (entry.1, entry.2.val)

theorem get_put (a : Accounts) (user record : Bytes) (valid : isValidRecord record = true)
    (u : Bytes) :
    (a.put user record valid).get u = if u = user then some record else a.get u := by
  simp only [get, put, Map.getElem?_insert]
  split <;> rfl

/-- `all` lists the accounts with valid names. -/
theorem mem_all_iff {a : Accounts} {user record : Bytes} :
    (user, record) ∈ a.all ↔ a.get user = some record ∧ isValidUsername user = true := by
  simp only [all, List.mem_map, List.mem_filter, Prod.mk.injEq, Prod.exists, Map.mem_toList_iff,
    get, Option.map_eq_some_iff]
  constructor
  · rintro ⟨u, r, ⟨present, valid⟩, rfl, rfl⟩
    exact ⟨⟨r, present, rfl⟩, valid⟩
  · rintro ⟨⟨r, present, rfl⟩, valid⟩
    exact ⟨user, r, ⟨present, valid⟩, rfl, rfl⟩

/-- Every account stored has a valid record. -/
theorem valid_of_get {a : Accounts} {user record : Bytes} (present : a.get user = some record) :
    isValidRecord record = true := by
  obtain ⟨r, -, rfl⟩ := Option.map_eq_some_iff.mp present
  exact r.property

/-- The listing is strictly increasing in user order. -/
theorem pairwise_all (a : Accounts) : a.all.Pairwise fun x y => compare x.1 y.1 = .lt := by
  rw [all, List.pairwise_map]
  exact (ExtTreeMap.ordered_keys_toList (t := a.records)).filter _

end Accounts

end SisOp
