import SisOp.Common.Listing
import SisOp.Common.Text
import Mathlib.Data.List.TakeWhile

/-!
# The saved sync state

`client/sync_state.cpp`: the text `SyncState::save` writes and how `SyncState::load`
reads any text. Each line is read with stream extractions, which skip white space,
take a sign and stop at the first character they cannot use; the hash is read after
the name was checked, with `std::stoull`, which throws.

A line is well-formed by the format the source describes (`Formatted`), which is
narrower than what the extractions take (`Taken`).

Main results: `load_saved`, what was saved is loaded again, and `load_safe_iff`, for
which texts `load` returns with the entries of the well-formed lines.
-/

namespace SisOp

open Lib Std

/-- The entries, each under its own name. -/
structure SyncState where
  entries : ExtTreeMap Bytes FileInfo
  named : ∀ (name : Bytes) info, entries[name]? = some info → info.name = name

namespace SyncState

instance : EmptyCollection SyncState where
  emptyCollection := ⟨∅, fun _ _ present => nomatch present.symm.trans ExtTreeMap.getElem?_empty⟩

def get (s : SyncState) (name : Bytes) : Option FileInfo := s.entries[name]?

def set (s : SyncState) (info : FileInfo) : SyncState where
  entries := s.entries.insert info.name info
  named name other present := by
    rw [Map.getElem?_insert] at present
    split at present
    · cases present
      exact Eq.symm ‹_›
    · exact s.named name other present

theorem ext {s t : SyncState} (same : s.entries = t.entries) : s = t := by
  cases s
  cases t
  cases same
  rfl

theorem get_empty (name : Bytes) : (∅ : SyncState).get name = none := ExtTreeMap.getElem?_empty

theorem get_set (s : SyncState) (info : FileInfo) (name : Bytes) :
    (s.set info).get name = if name = info.name then some info else s.get name :=
  Map.getElem?_insert ..

/-! ## Writing -/

def HEADER : Bytes := bytes "sisop-sync-state 1"

def space : UInt8 := 0x20

/-- A digit of `%x`. -/
def hexChar (d : Nat) : UInt8 := if d < 10 then (0x30 + d).toUInt8 else (0x57 + d).toUInt8

/-- `"%016" PRIx64`. -/
def hashText (hash : UInt64) : Bytes := (Numeral.padded 16 16 hash.toNat).map hexChar

/-- `operator<<` of a signed number. -/
def signedText (n : Int) : Bytes :=
  if n < 0 then 0x2D :: unsignedText n.natAbs else unsignedText n.natAbs

def lineOf (info : FileInfo) : Bytes :=
  hashText info.hash ++ space :: (unsignedText info.size.toNat ++
    space :: (signedText info.mtimeNs.toInt ++ space :: info.name))

/-- What `SyncState::save` puts into the file. -/
def saved (s : SyncState) : Bytes :=
  HEADER ++ newline :: s.entries.toList.flatMap fun entry => lineOf entry.2 ++ [newline]

/-! ## Reading -/

/-- `isspace`. -/
def isSpace (c : UInt8) : Bool := c == 0x20 || (decide (0x09 ≤ c) && decide (c ≤ 0x0D))

def decimalDigit (c : UInt8) : Option Nat :=
  if 0x30 ≤ c ∧ c ≤ 0x39 then some (c.toNat - 0x30) else none

def hexDigit (c : UInt8) : Option Nat :=
  if 0x30 ≤ c ∧ c ≤ 0x39 then some (c.toNat - 0x30)
  else if 0x61 ≤ c ∧ c ≤ 0x66 then some (c.toNat - 0x57)
  else if 0x41 ≤ c ∧ c ≤ 0x46 then some (c.toNat - 0x37)
  else none

/-- Whether a text starts with a minus, and the text after its sign. -/
def readSign : Bytes → Bool × Bytes
  | c :: text => if c = 0x2D then (true, text) else if c = 0x2B then (false, text) else
      (false, c :: text)
  | [] => (false, [])

/-- `operator>>` of a string. -/
def readWord (text : Bytes) : Option (Bytes × Bytes) :=
  let text := text.dropWhile isSpace
  let word := text.takeWhile fun c => !isSpace c
  if word = [] then none else some (word, text.drop word.length)

/-- The sign and the digits `operator>>` of a number takes. -/
def readDigits (text : Bytes) : Option (Bool × Nat × Bytes) :=
  let signed := readSign (text.dropWhile isSpace)
  let found := Numeral.scan decimalDigit signed.2
  if found.1 = [] then none else some (signed.1, Numeral.value 10 found.1, found.2)

/-- The sign of an unsigned number: it wraps around. -/
def signedU64 (negative : Bool) (n : Nat) : UInt64 := if negative then -n.toUInt64 else n.toUInt64

/-- `operator>>` of a `uint64_t`; a number out of range is a failure. -/
def readU64 (text : Bytes) : Option (UInt64 × Bytes) :=
  match readDigits text with
  | some (negative, n, rest) => if n < 2 ^ 64 then some (signedU64 negative n, rest) else none
  | none => none

/-- `operator>>` of an `int64_t`. -/
def readI64 (text : Bytes) : Option (Int64 × Bytes) :=
  match readDigits text with
  | some (negative, n, rest) =>
    let value : Int := if negative then -n else n
    if -2 ^ 63 ≤ value ∧ value < 2 ^ 63 then some (Int64.ofInt value, rest) else none
  | none => none

/-- The three extractions, `get` and `getline` of a line: the text of the hash and
the rest of the entry. -/
def readFields (line : Bytes) : Option (Bytes × FileInfo) := do
  let (hash, rest) ← readWord line
  let (size, rest) ← readU64 rest
  let (mtimeNs, rest) ← readI64 rest
  pure (hash, ⟨rest.tail, size, mtimeNs, 0⟩)

inductive StoullError where
  | invalidArgument
  | outOfRange
  deriving DecidableEq, Repr

/-- `0x` before a hexadecimal digit is skipped. -/
def skipHexPrefix : Bytes → Bytes
  | 0x30 :: x :: c :: text =>
    if (x = 0x78 ∨ x = 0x58) ∧ (hexDigit c).isSome then c :: text else 0x30 :: x :: c :: text
  | text => text

/-- The sign and the digits `strtoull` takes in base 16; the text ends at a zero byte. -/
def stoullDigits (text : Bytes) : Bool × List Nat :=
  let signed := readSign ((text.takeWhile (· ≠ 0)).dropWhile isSpace)
  (signed.1, (Numeral.scan hexDigit (skipHexPrefix signed.2)).1)

/-- `std::stoull(text, nullptr, 16)`. -/
def stoull16 (text : Bytes) : Except StoullError UInt64 :=
  let found := stoullDigits text
  if found.2 = [] then .error .invalidArgument
  else if 2 ^ 64 ≤ Numeral.value 16 found.2 then .error .outOfRange
  else .ok (signedU64 found.1 (Numeral.value 16 found.2))

/-- The lines `std::getline` reads one after the other; the last one may lack its
newline. -/
def lines : Bytes → List Bytes
  | [] => []
  | c :: text =>
    if c = newline then [] :: lines text
    else
      match lines text with
      | [] => [[c]]
      | line :: rest => (c :: line) :: rest

/-- One line of the loop of `SyncState::load`. -/
def loadLine (s : SyncState) (line : Bytes) : Except StoullError SyncState :=
  match readFields line with
  | none => pure s
  | some (hash, info) =>
    if isValidPath info.name then do
      let hash ← stoull16 hash
      pure (s.set { info with hash })
    else pure s

/-- The lines after the header; none if that is another one. -/
def entryLines (text : Bytes) : List Bytes :=
  match lines text with
  | header :: rest => if header = HEADER then rest else []
  | [] => []

/-- `SyncState::load` of a file with this content, or of none. -/
def load (file : Option Bytes) : Except StoullError SyncState :=
  (entryLines (file.getD [])).foldlM loadLine ∅

/-! ## The format -/

/-- The text consists of digits, at least one, that stand for the number. -/
def Numeric (digit : UInt8 → Option Nat) (b : Nat) (text : Bytes) (n : Nat) : Prop :=
  text ≠ [] ∧ ∃ ds, text.map digit = ds.map some ∧ Numeral.value b ds = n

/-- Decimal digits, after a minus for what is below zero. -/
def Signed (text : Bytes) (n : Int) : Prop :=
  (∃ m : Nat, Numeric decimalDigit 10 text m ∧ n = m) ∨
    ∃ digits, ∃ m : Nat, text = 0x2D :: digits ∧ Numeric decimalDigit 10 digits m ∧ n = -m

/-- A well-formed line, as the comment on `SyncState::load` has it: the hash in 16
hexadecimal digits, the size, the time and a valid name, one space between them. -/
def Formatted (line : Bytes) (info : FileInfo) : Prop :=
  ∃ hash size time : Bytes,
    line = hash ++ space :: (size ++ space :: (time ++ space :: info.name)) ∧
      (hash.length = 16 ∧ Numeric hexDigit 16 hash info.hash.toNat) ∧
        Numeric decimalDigit 10 size info.size.toNat ∧ Signed time info.mtimeNs.toInt ∧
          isValidPath info.name = true

section Text

variable {digit : UInt8 → Option Nat} {b n : Nat} {m : Int} {rest word line text : Bytes}

theorem Numeric.digit_ne_none (numeric : Numeric digit b text n) {c : UInt8} (mem : c ∈ text) :
    digit c ≠ none := by
  obtain ⟨-, ds, digits, -⟩ := numeric
  have image : digit c ∈ ds.map some := digits ▸ List.mem_map_of_mem mem
  obtain ⟨d, -, eq⟩ := List.mem_map.mp image
  exact eq ▸ Option.some_ne_none d

/-- No digit is white space or a sign. -/
theorem decimalDigit_spec {c : UInt8} (digit : decimalDigit c ≠ none) :
    isSpace c = false ∧ c ≠ 0x2D ∧ c ≠ 0x2B ∧ c ≠ newline := by
  unfold decimalDigit at digit
  split at digit
  · unfold isSpace newline
    grind
  · exact absurd rfl digit

/-- Nor is a hexadecimal digit a zero byte or the `x` of a prefix. -/
theorem hexDigit_spec {c : UInt8} (digit : hexDigit c ≠ none) :
    isSpace c = false ∧ (c ≠ 0x2D ∧ c ≠ 0x2B) ∧ (c ≠ 0x78 ∧ c ≠ 0x58) ∧ c ≠ 0 ∧ c ≠ newline := by
  unfold hexDigit at digit
  split at digit
  · unfold isSpace newline
    grind
  · split at digit
    · unfold isSpace newline
      grind
    · split at digit
      · unfold isSpace newline
        grind
      · exact absurd rfl digit

/-! ## What is well-formed is read -/

theorem readSign_of_digit (numeric : Numeric decimalDigit 10 text n) :
    readSign (text ++ rest) = (false, text ++ rest) := by
  obtain ⟨c, cs, rfl⟩ := List.exists_cons_of_ne_nil numeric.1
  obtain ⟨-, noMinus, noPlus, -⟩ := decimalDigit_spec (numeric.digit_ne_none List.mem_cons_self)
  rw [List.cons_append, readSign, if_neg noMinus, if_neg noPlus]

theorem scan_numeric (numeric : Numeric digit b text n) (stops : ∀ c ∈ rest.head?, digit c = none) :
    ∃ ds, Numeral.scan digit (text ++ rest) = (ds, rest) ∧ ds ≠ [] ∧ Numeral.value b ds = n := by
  obtain ⟨filled, ds, digits, value⟩ := numeric
  refine ⟨ds, Numeral.scan_append digits stops, fun empty => filled ?_, value⟩
  rw [empty, List.map_nil, List.map_eq_nil_iff] at digits
  exact digits

theorem readDigits_numeric (numeric : Numeric decimalDigit 10 text n)
    (stops : ∀ c ∈ rest.head?, decimalDigit c = none) :
    readDigits (space :: (text ++ rest)) = some (false, n, rest) := by
  have skipped : (space :: (text ++ rest)).dropWhile isSpace = text ++ rest := by
    obtain ⟨c, cs, rfl⟩ := List.exists_cons_of_ne_nil numeric.1
    have solid := (decimalDigit_spec (numeric.digit_ne_none List.mem_cons_self)).1
    rw [List.dropWhile_cons_of_pos rfl, List.cons_append,
      List.dropWhile_cons_of_neg (by rw [solid]; nofun)]
  obtain ⟨ds, scanned, filled, value⟩ := scan_numeric numeric stops
  unfold readDigits
  dsimp only
  rw [skipped, readSign_of_digit numeric]
  dsimp only
  rw [scanned, if_neg filled, value]

theorem readDigits_minus (numeric : Numeric decimalDigit 10 text n)
    (stops : ∀ c ∈ rest.head?, decimalDigit c = none) :
    readDigits (space :: 0x2D :: (text ++ rest)) = some (true, n, rest) := by
  have skipped : (space :: 0x2D :: (text ++ rest)).dropWhile isSpace = 0x2D :: (text ++ rest) := by
    rw [List.dropWhile_cons_of_pos rfl, List.dropWhile_cons_of_neg (by decide)]
  obtain ⟨ds, scanned, filled, value⟩ := scan_numeric numeric stops
  unfold readDigits
  dsimp only
  rw [skipped, readSign, if_pos rfl]
  dsimp only
  rw [scanned, if_neg filled, value]

theorem readU64_numeric {size : UInt64} (numeric : Numeric decimalDigit 10 text size.toNat)
    (stops : ∀ c ∈ rest.head?, decimalDigit c = none) :
    readU64 (space :: (text ++ rest)) = some (size, rest) := by
  rw [readU64, readDigits_numeric numeric stops]
  dsimp only
  rw [if_pos size.toNat_lt, signedU64, if_neg Bool.false_ne_true, Nat.toUInt64, UInt64.ofNat_toNat]

theorem readI64_signed {time : Int64} (signed : Signed text time.toInt)
    (stops : ∀ c ∈ rest.head?, decimalDigit c = none) :
    readI64 (space :: (text ++ rest)) = some (time, rest) := by
  have low : -2 ^ 63 ≤ time.toInt := time.le_toInt
  have high : time.toInt < 2 ^ 63 := time.toInt_lt
  rcases signed with ⟨m, numeric, value⟩ | ⟨digits, m, rfl, numeric, value⟩
  · rw [readI64, readDigits_numeric numeric stops]
    dsimp only
    rw [if_neg Bool.false_ne_true, ← value, if_pos ⟨low, high⟩, Int64.ofInt_toInt]
  · rw [List.cons_append, readI64, readDigits_minus numeric stops]
    dsimp only
    rw [if_pos rfl, ← value, if_pos ⟨low, high⟩, Int64.ofInt_toInt]

theorem readWord_append (filled : word ≠ []) (solid : ∀ c ∈ word, isSpace c = false) :
    readWord (word ++ space :: rest) = some (word, space :: rest) := by
  have skipped : (word ++ space :: rest).dropWhile isSpace = word ++ space :: rest := by
    obtain ⟨c, cs, rfl⟩ := List.exists_cons_of_ne_nil filled
    rw [List.cons_append, List.dropWhile_cons_of_neg]
    rw [solid c List.mem_cons_self]
    nofun
  have taken : (word ++ space :: rest).takeWhile (fun c => !isSpace c) = word := by
    rw [List.takeWhile_append_of_pos fun c mem => by rw [solid c mem]; rfl,
      List.takeWhile_cons_of_neg (by decide), List.append_nil]
  unfold readWord
  dsimp only
  rw [skipped, taken, if_neg filled, List.drop_left]

theorem stoull16_numeric {hash : UInt64} (numeric : Numeric hexDigit 16 text hash.toNat) :
    stoull16 text = .ok hash := by
  have spec := fun c (mem : c ∈ text) => hexDigit_spec (numeric.digit_ne_none mem)
  have whole : (text.takeWhile (· ≠ 0)).dropWhile isSpace = text := by
    rw [List.takeWhile_eq_self_iff.mpr fun c mem => decide_eq_true (spec c mem).2.2.2.1,
      List.dropWhile_eq_self_iff]
    intro filled
    rw [(spec _ (List.getElem_mem filled)).1]
    nofun
  have unsigned : readSign text = (false, text) := by
    obtain ⟨c, cs, rfl⟩ := List.exists_cons_of_ne_nil numeric.1
    obtain ⟨-, noSign, -⟩ := spec c List.mem_cons_self
    rw [readSign, if_neg noSign.1, if_neg noSign.2]
  have plain : skipHexPrefix text = text := by
    unfold skipHexPrefix
    split
    · rename_i x c cs
      obtain ⟨-, -, noPrefix, -⟩ := spec x (List.mem_cons_of_mem _ List.mem_cons_self)
      rw [if_neg fun both => both.1.elim noPrefix.1 noPrefix.2]
    · rfl
  have ends : ∀ c ∈ ([] : Bytes).head?, hexDigit c = none := nofun
  obtain ⟨ds, scanned, filled, value⟩ := scan_numeric numeric ends
  rw [List.append_nil] at scanned
  have found : stoullDigits text = (false, ds) := by
    unfold stoullDigits
    dsimp only
    rw [whole, unsigned]
    dsimp only
    rw [plain, scanned]
  unfold stoull16
  dsimp only
  rw [found]
  dsimp only
  rw [if_neg filled, value, if_neg (Nat.not_le_of_lt hash.toNat_lt), signedU64,
    if_neg Bool.false_ne_true, Nat.toUInt64, UInt64.ofNat_toNat]

/-- The name is what follows the space after the time, whatever it starts with. -/
theorem readFields_of_formatted {info : FileInfo} (formatted : Formatted line info) :
    ∃ hash, readFields line = some (hash, { info with hash := 0 }) ∧
      stoull16 hash = .ok info.hash := by
  obtain ⟨hash, size, time, rfl, ⟨-, hex⟩, sizeText, timeText, -⟩ := formatted
  have stops : ∀ text : Bytes, ∀ c ∈ (space :: text).head?, decimalDigit c = none := by
    rintro text c mem
    cases mem
    rfl
  refine ⟨hash, ?_, stoull16_numeric hex⟩
  unfold readFields
  rw [readWord_append hex.1 fun c mem => (hexDigit_spec (hex.digit_ne_none mem)).1]
  simp only [Option.bind_eq_bind, Option.bind_some]
  rw [readU64_numeric sizeText (stops _)]
  simp only [Option.bind_some]
  rw [readI64_signed timeText (stops _)]
  rfl

/-! ## What is written is well-formed -/

/-- Each digit of a size or a time is one character that stands for it alone. -/
theorem decimalDigit_decimalChar : ∀ d < 10, decimalDigit (decimalChar d) = some d := by
  decide

theorem hexDigit_hexChar : ∀ d < 16, hexDigit (hexChar d) = some d := by
  decide

theorem map_written {write : Nat → UInt8} {ds : List Nat}
    (reads : ∀ d ∈ ds, digit (write d) = some d) : (ds.map write).map digit = ds.map some := by
  rw [List.map_map]
  exact List.map_congr_left reads

theorem numeric_unsignedText (n : Nat) : Numeric decimalDigit 10 (unsignedText n) n := by
  refine ⟨fun empty => Numeral.digits_ne_nil 10 n (List.map_eq_nil_iff.mp empty), _,
    map_written fun d mem => ?_, Numeral.value_digits 10 n⟩
  exact decimalDigit_decimalChar d (Numeral.digits_lt (by decide) n d mem)

theorem signed_signedText (m : Int) : Signed (signedText m) m := by
  unfold signedText
  split
  · exact .inr ⟨_, _, rfl, numeric_unsignedText _, by omega⟩
  · exact .inl ⟨_, numeric_unsignedText _, by omega⟩

theorem numeric_hashText (hash : UInt64) : Numeric hexDigit 16 (hashText hash) hash.toNat := by
  refine ⟨nofun, _, map_written fun d mem => ?_, Numeral.value_padded hash.toNat_lt⟩
  exact hexDigit_hexChar d (Numeral.padded_lt (by decide) 16 hash.toNat d mem)

theorem formatted_lineOf {info : FileInfo} (valid : isValidPath info.name = true) :
    Formatted (lineOf info) info := by
  refine ⟨_, _, _, rfl, ⟨?_, numeric_hashText _⟩, numeric_unsignedText _,
    signed_signedText _, valid⟩
  rw [hashText, List.length_map, Numeral.length_padded]

theorem Numeric.newline_not_mem (numeric : Numeric decimalDigit 10 text n) : newline ∉ text :=
  fun mem => (decimalDigit_spec (numeric.digit_ne_none mem)).2.2.2 rfl

theorem Signed.newline_not_mem (signed : Signed text m) : newline ∉ text := by
  rcases signed with ⟨_, numeric, -⟩ | ⟨digits, _, rfl, numeric, -⟩
  · exact numeric.newline_not_mem
  · rw [List.mem_cons, not_or]
    exact ⟨by decide, numeric.newline_not_mem⟩

/-- A well-formed line is one line. -/
theorem Formatted.newline_not_mem {info : FileInfo} (formatted : Formatted line info) :
    newline ∉ line := by
  obtain ⟨hash, size, time, rfl, ⟨-, hex⟩, sizeText, timeText, valid⟩ := formatted
  have name : newline ∉ info.name := fun mem =>
    printable_of_isValidPath valid newline mem (by decide)
  have apart : newline ≠ space := by decide
  simp only [List.mem_append, List.mem_cons, not_or]
  exact ⟨fun mem => (hexDigit_spec (hex.digit_ne_none mem)).2.2.2.2 rfl, apart,
    sizeText.newline_not_mem, apart, timeText.newline_not_mem, apart, name⟩

/-! ## Lines -/

theorem lines_append (plain : newline ∉ line) (rest : Bytes) :
    lines (line ++ newline :: rest) = line :: lines rest := by
  induction line with
  | nil => rw [List.nil_append, lines, if_pos rfl]
  | cons c line ih =>
    rw [List.mem_cons, not_or] at plain
    rw [List.cons_append, lines, if_neg fun eq => plain.1 eq.symm, ih plain.2]

theorem lines_flatMap {α : Type} {write : α → Bytes} {list : List α}
    (plain : ∀ a ∈ list, newline ∉ write a) :
    lines (list.flatMap fun a => write a ++ [newline]) = list.map write := by
  induction list with
  | nil => rfl
  | cons a list ih =>
    rw [List.flatMap_cons, List.append_assoc, List.singleton_append,
      lines_append (plain a List.mem_cons_self),
        ih fun a mem => plain a (List.mem_cons_of_mem _ mem),
      List.map_cons]

/-- The text of a map with valid names has one line for each entry. -/
theorem entryLines_saved {s : SyncState}
    (valid : ∀ name info, s.get name = some info → isValidPath name = true) :
    entryLines s.saved = (s.entries.toList.map Prod.snd).map lineOf := by
  have plain : ∀ entry ∈ s.entries.toList, newline ∉ lineOf entry.2 := by
    rintro ⟨name, info⟩ mem
    have present : s.entries[name]? = some info := Map.mem_toList_iff.mp mem
    refine (formatted_lineOf ?_).newline_not_mem
    rw [s.named name info present]
    exact valid name info present
  unfold entryLines saved
  rw [lines_append (by decide), lines_flatMap plain, List.map_map]
  exact if_pos rfl

end Text

/-! ## The lines of any text -/

section Load

variable {s t : SyncState} {line text : Bytes}

/-- What `load` takes from a line before it reads the hash: nothing if a field is
missing or cannot be read or the name is not valid. -/
def lineEntry (line : Bytes) : Option (Bytes × FileInfo) :=
  (readFields line).filter fun fields => isValidPath fields.2.name

/-- The entry of a well-formed line. -/
def entryOf (line : Bytes) : Option FileInfo :=
  match lineEntry line with
  | some (hash, info) =>
    match stoull16 hash with
    | .ok hash => some { info with hash }
    | .error _ => none
  | none => none

/-- The text, up to a zero byte, has a hexadecimal digit after its sign and `0x`, if it
has any, and the digits there stand for a number below 2^64. -/
def HashReadable (hash : Bytes) : Prop :=
  (stoullDigits hash).2 ≠ [] ∧ Numeral.value 16 (stoullDigits hash).2 < 2 ^ 64

theorem stoull16_ok_iff {hash : Bytes} : (∃ value, stoull16 hash = .ok value) ↔
    HashReadable hash := by
  unfold stoull16 HashReadable
  dsimp only
  split
  · rename_i none
    exact ⟨nofun, fun readable => absurd none readable.1⟩
  · rename_i some
    split
    · rename_i large
      exact ⟨nofun, fun readable => absurd readable.2 (Nat.not_lt_of_le large)⟩
    · rename_i small
      exact ⟨fun _ => ⟨some, Nat.lt_of_not_le small⟩, fun _ => ⟨_, rfl⟩⟩

/-- A line adds its entry or nothing, unless its hash cannot be read. -/
theorem loadLine_ok_iff : loadLine s line = .ok t ↔
    (∀ hash info, lineEntry line = some (hash, info) → HashReadable hash) ∧
      t = (entryOf line).toList.foldl set s := by
  have skipped : lineEntry line = none → loadLine s line = .ok s := by
    intro none
    unfold lineEntry at none
    unfold loadLine
    cases fields : readFields line with
    | none => rfl
    | some fields' =>
      rw [fields, Option.filter_eq_none_iff] at none
      dsimp only
      rw [if_neg (none fields' rfl)]
      rfl
  unfold entryOf
  cases entry : lineEntry line with
  | none =>
    rw [skipped entry]
    exact ⟨fun same => ⟨nofun, (Except.ok.inj same).symm⟩, fun both => congrArg _ both.2.symm⟩
  | some entry' =>
    obtain ⟨hash, info⟩ := entry'
    obtain ⟨fields, valid⟩ := Option.filter_eq_some_iff.mp entry
    have read : loadLine s line = (stoull16 hash).map fun hash => s.set { info with hash } := by
      unfold loadLine
      rw [fields]
      dsimp only
      rw [if_pos valid]
      cases stoull16 hash <;> rfl
    have only : (∀ hash' info', some (hash, info) = some (hash', info') → HashReadable hash') ↔
        HashReadable hash := by
      refine ⟨fun all => all hash info rfl, fun readable hash' info' same => ?_⟩
      cases same
      exact readable
    rw [read, only, ← stoull16_ok_iff]
    dsimp only
    cases stoull16 hash with
    | ok value =>
      exact ⟨fun same => ⟨⟨value, rfl⟩, (Except.ok.inj same).symm⟩,
        fun both => congrArg Except.ok both.2.symm⟩
    | error e => exact ⟨nofun, fun both => nomatch both.1⟩

theorem foldlM_loadLine_iff {ls : List Bytes} : ls.foldlM loadLine s = .ok t ↔
    (∀ line ∈ ls, ∀ hash info, lineEntry line = some (hash, info) → HashReadable hash) ∧
      t = (ls.filterMap entryOf).foldl set s := by
  induction ls generalizing s with
  | nil => exact ⟨fun same => ⟨nofun, (Except.ok.inj same).symm⟩,
      fun both => congrArg _ both.2.symm⟩
  | cons line ls ih =>
    have split : (line :: ls).filterMap entryOf = (entryOf line).toList ++ ls.filterMap
      entryOf := by
      rw [List.filterMap_cons]
      cases entryOf line <;> rfl
    rw [List.foldlM_cons, List.forall_mem_cons, split, List.foldl_append]
    cases first : loadLine s line with
    | ok s' =>
      obtain ⟨readable, rfl⟩ := loadLine_ok_iff.mp first
      rw [and_iff_right readable]
      exact ih
    | error e =>
      refine ⟨nofun, fun both => ?_⟩
      have done : loadLine s line = .ok ((entryOf line).toList.foldl set s) :=
        loadLine_ok_iff.mpr ⟨both.1.1, rfl⟩
      rw [first] at done
      cases done

/-- Of several entries for a name the last one counts. -/
theorem get_foldl_set (s : SyncState) (infos : List FileInfo) (name : Bytes) :
    (infos.foldl set s).get name =
      (infos.reverse.find? fun info => info.name = name).or (s.get name) := by
  induction infos generalizing s with
  | nil => rfl
  | cons info infos ih =>
    rw [List.foldl_cons, ih, get_set, List.reverse_cons, List.find?_append, Option.or_assoc,
      List.find?_singleton]
    by_cases same : info.name = name
    · rw [if_pos same.symm, if_pos (decide_eq_true same), Option.some_or]
    · rw [if_neg (Ne.symm same), if_neg (by rwa [decide_eq_true_eq]), Option.none_or]

theorem isValidPath_of_entryOf {info : FileInfo} (entry : entryOf line = some info) :
    isValidPath info.name = true := by
  unfold entryOf at entry
  split at entry
  · rename_i hash info' here
    have valid := (Option.filter_eq_some_iff.mp here).2
    split at entry <;> cases entry
    exact valid
  · cases entry

/-- What a well-formed line gives. -/
theorem lineEntry_of_formatted {info : FileInfo} (formatted : Formatted line info) :
    ∃ hash, lineEntry line = some (hash, { info with hash := 0 }) ∧
      stoull16 hash = .ok info.hash := by
  obtain ⟨hash, fields, read⟩ := readFields_of_formatted formatted
  refine ⟨hash, ?_, read⟩
  obtain ⟨-, -, -, -, -, -, -, valid⟩ := formatted
  rw [lineEntry, fields]
  exact if_pos valid

theorem entryOf_of_formatted {info : FileInfo} (formatted : Formatted line info) :
    entryOf line = some info := by
  obtain ⟨hash, entry, read⟩ := lineEntry_of_formatted formatted
  unfold entryOf
  rw [entry]
  dsimp only
  rw [read]

end Load

/-! ## The laws -/

/-- **Round trip.** What was saved of a map with valid names is loaded again. -/
theorem load_saved {s : SyncState}
    (valid : ∀ name info, s.get name = some info → isValidPath name = true) :
    load (some s.saved) = .ok s := by
  have names : ∀ info ∈ s.entries.toList.map Prod.snd,
      s.get info.name = some info ∧ isValidPath info.name = true := by
    intro info mem
    obtain ⟨⟨name, info⟩, entry, rfl⟩ := List.mem_map.mp mem
    have present : s.entries[name]? = some info := Map.mem_toList_iff.mp entry
    obtain rfl := s.named name info present
    exact ⟨present, valid _ info present⟩
  have back : ((s.entries.toList.map Prod.snd).map lineOf).filterMap entryOf =
      s.entries.toList.map Prod.snd := by
    rw [List.filterMap_map]
    refine (List.filterMap_congr fun info mem => ?_).trans List.filterMap_some
    exact entryOf_of_formatted (formatted_lineOf (names info mem).2)
  unfold load
  rw [Option.getD_some, entryLines_saved valid]
  refine foldlM_loadLine_iff.mpr ⟨fun line mem hash info entry => ?_, ?_⟩
  · obtain ⟨written, listed, rfl⟩ := List.mem_map.mp mem
    obtain ⟨hash', entry', read⟩ :=
      lineEntry_of_formatted (formatted_lineOf (names written listed).2)
    rw [entry'] at entry
    cases entry
    exact stoull16_ok_iff.mp ⟨_, read⟩
  · rw [back]
    refine ext (ExtTreeMap.ext_getElem? fun name => ?_)
    change s.get name = ((s.entries.toList.map Prod.snd).foldl set ∅).get name
    rw [get_foldl_set, get_empty, Option.or_none]
    cases found : (s.entries.toList.map Prod.snd).reverse.find? fun info => info.name = name with
    | some info =>
      have same : info.name = name := by simpa using List.find?_some found
      have present := (names info (List.mem_reverse.mp (List.mem_of_find?_eq_some found))).1
      rw [← same, present]
    | none =>
      by_contra present
      obtain ⟨info, here⟩ := Option.ne_none_iff_exists'.mp present
      rw [List.find?_eq_none] at found
      refine found info (List.mem_reverse.mpr (List.mem_map.mpr ⟨(name, info), ?_, rfl⟩)) ?_
      · exact Map.mem_toList_iff.mpr here
      · exact decide_eq_true (s.named name info here)

/-! ## The last line for a name -/

section Last

variable {gives : Bytes → FileInfo → Prop} {ls : List Bytes} {line : Bytes} {info other : FileInfo}

/-- The entry is that of the last line that gives one for its name. -/
def LastOf (gives : Bytes → FileInfo → Prop) (ls : List Bytes) (info : FileInfo) : Prop :=
  ∃ before line after, ls = before ++ line :: after ∧ gives line info ∧
    ∀ later ∈ after, ∀ other, gives later other → other.name ≠ info.name

theorem not_lastOf_nil : ¬LastOf gives [] info := by
  rintro ⟨before, line, after, split, -⟩
  exact List.append_ne_nil_of_right_ne_nil before (List.cons_ne_nil line after) split.symm

theorem lastOf_concat : LastOf gives (ls ++ [line]) info ↔
    gives line info ∨ LastOf gives ls info ∧ ∀ other, gives line other →
      other.name ≠ info.name := by
  constructor
  · rintro ⟨before, here, after, split, given, last⟩
    rcases List.eq_nil_or_concat after with rfl | ⟨after, final, rfl⟩
    · obtain ⟨-, same⟩ := List.append_inj' split rfl
      cases same
      exact .inl given
    · rw [List.concat_eq_append, ← List.cons_append, ← List.append_assoc] at split
      obtain ⟨rfl, same⟩ := List.append_inj' split rfl
      cases same
      rw [List.concat_eq_append] at last
      exact .inr ⟨⟨before, here, after, rfl, given, fun later mem =>
        last later (List.mem_append_left _ mem)⟩,
          last line (List.mem_append_right _ (List.mem_singleton_self _))⟩
  · rintro (given | ⟨⟨before, here, after, rfl, given, last⟩, not⟩)
    · exact ⟨ls, line, [], rfl, given, nofun⟩
    · refine ⟨before, here, after ++ [line], List.append_assoc .., given, fun later mem => ?_⟩
      rcases List.mem_append.mp mem with mem | mem
      · exact last later mem
      · rw [List.mem_singleton.mp mem]
        exact not

/-- Lines that give nothing for the name do not matter. -/
theorem lastOf_append {after : List Bytes}
    (not : ∀ later ∈ after, ∀ other, gives later other → other.name ≠ info.name) :
    LastOf gives (ls ++ after) info ↔ LastOf gives ls info := by
  induction after using List.reverseRecOn with
  | nil => rw [List.append_nil]
  | append_singleton after final ih =>
    have lacks := not final (List.mem_append_right _ (List.mem_singleton_self _))
    rw [← List.append_assoc, lastOf_concat,
      ih fun later mem => not later (List.mem_append_left _ mem)]
    exact ⟨fun either => either.elim (fun given => absurd rfl (lacks info given)) And.left,
      fun last => .inr ⟨last, lacks⟩⟩

theorem LastOf.unique (functional : ∀ line a b, gives line a → gives line b → a = b)
    (last : LastOf gives ls info) (last' : LastOf gives ls other) (same : info.name = other.name) :
    info = other := by
  induction ls using List.reverseRecOn with
  | nil => exact (not_lastOf_nil last).elim
  | append_singleton ls line ih =>
    rcases lastOf_concat.mp last with given | ⟨earlier, not⟩
    · rcases lastOf_concat.mp last' with given' | ⟨-, not'⟩
      · exact functional line _ _ given given'
      · exact absurd same (not' info given)
    · rcases lastOf_concat.mp last' with given' | ⟨earlier', -⟩
      · exact absurd same.symm (not other given')
      · exact ih earlier earlier'

theorem exists_lastOf (mem : line ∈ ls) (given : gives line info) :
    ∃ other, other.name = info.name ∧ LastOf gives ls other := by
  induction ls using List.reverseRecOn with
  | nil => cases mem
  | append_singleton ls final ih =>
    by_cases same : ∃ other, gives final other ∧ other.name = info.name
    · obtain ⟨other, given, same⟩ := same
      exact ⟨other, same, lastOf_concat.mpr (.inl given)⟩
    · rcases List.mem_append.mp mem with mem | mem
      · obtain ⟨other, same', last⟩ := ih mem
        refine ⟨other, same', lastOf_concat.mpr (.inr ⟨last, fun another given eq => same ?_⟩)⟩
        exact ⟨another, given, eq.trans same'⟩
      · rw [List.mem_singleton.mp mem] at given
        exact absurd ⟨info, given, rfl⟩ same

/-- The loop takes the entry from the line. -/
def Taken (line : Bytes) (info : FileInfo) : Prop := entryOf line = some info

/-- Of several lines taken for a name the last one counts. -/
theorem get_loaded_iff {name : Bytes} : ((ls.filterMap entryOf).foldl set ∅).get name = some info ↔
    info.name = name ∧ LastOf Taken ls info := by
  induction ls using List.reverseRecOn with
  | nil =>
    rw [List.filterMap_nil, List.foldl_nil, get_empty]
    exact ⟨nofun, fun both => (not_lastOf_nil both.2).elim⟩
  | append_singleton ls line ih =>
    rw [lastOf_concat, List.filterMap_append, List.foldl_append, List.filterMap_cons,
      List.filterMap_nil]
    simp only [Taken]
    cases taken : entryOf line with
    | none =>
      refine ih.trans ⟨fun both => ⟨both.1, .inr ⟨both.2, nofun⟩⟩, fun both => ⟨both.1, ?_⟩⟩
      exact both.2.elim nofun And.left
    | some entry =>
      rw [List.foldl_cons, List.foldl_nil, get_set]
      split
      · rename_i same
        rw [Option.some.injEq]
        refine ⟨fun eq => ⟨eq ▸ same.symm, .inl eq⟩, fun both => both.2.elim id fun earlier => ?_⟩
        exact absurd (same.symm.trans both.1.symm) (earlier.2 entry rfl)
      · rename_i apart
        rw [ih]
        refine and_congr_right fun here =>
          ⟨fun last => .inr ⟨last, fun other eq => ?_⟩, fun either => ?_⟩
        · cases eq
          exact fun same => apart (here.symm.trans same.symm)
        · rcases either with eq | earlier
          · cases eq
            exact absurd here.symm apart
          · exact earlier.1

end Last

/-- `load` returns, with valid names only, and has the entries of the well-formed
lines and no others, of several for a name the last. -/
def Safe (text : Bytes) : Prop :=
  ∃ s, load (some text) = .ok s ∧
    (∀ name info, s.get name = some info → isValidPath name = true) ∧
      ∀ name info, s.get name = some info ↔
        info.name = name ∧ LastOf Formatted (entryLines text) info

/-- Nothing remains of a line that is taken without being well-formed: a later one
is taken for the name, or the last well-formed one before it says the same. -/
def Harmless (before : List Bytes) (line : Bytes) (after : List Bytes) : Prop :=
  ∀ info, Taken line info → Formatted line info ∨
    (∃ later ∈ after, ∃ other, Taken later other ∧ other.name = info.name) ∨
      LastOf Formatted before info

theorem lastOf_formatted {ls : List Bytes}
    (harmless : ∀ before line after, ls = before ++ line :: after → Harmless before line after)
    {info : FileInfo} (last : LastOf Taken ls info) : LastOf Formatted ls info := by
  obtain ⟨before, line, after, split, taken, none⟩ := last
  have later : ∀ later ∈ after, ∀ other, Formatted later other → other.name ≠ info.name :=
    fun later mem other formatted => none later mem other (entryOf_of_formatted formatted)
  rcases harmless before line after split info taken with formatted | ⟨line', mem, other,
    taken', same⟩ |
      earlier
  · exact ⟨before, line, after, split, formatted, later⟩
  · exact absurd same (none line' mem other taken')
  · by_cases formatted : Formatted line info
    · exact ⟨before, line, after, split, formatted, later⟩
    · rw [split]
      refine (lastOf_append (List.forall_mem_cons.mpr ⟨fun other given => ?_, later⟩)).mpr earlier
      cases taken.symm.trans (entryOf_of_formatted given)
      exact absurd given formatted

/-- **Damaged files.** Loading a text is safe exactly when the hash of each line
after the header with readable numbers and a valid name is readable too, and no line
that is taken without being well-formed changes what is loaded. -/
theorem load_safe_iff (text : Bytes) : Safe text ↔
    (∀ line ∈ entryLines text, ∀ hash info, lineEntry line = some (hash, info) →
      HashReadable hash) ∧
        ∀ before line after, entryLines text = before ++ line :: after →
          Harmless before line after := by
  have functional : ∀ line a b, Formatted line a → Formatted line b →
    a = b := fun line a b here there =>
    Option.some.inj ((entryOf_of_formatted here).symm.trans (entryOf_of_formatted there))
  constructor
  · rintro ⟨s, loaded, -, entries⟩
    obtain ⟨readable, rfl⟩ := foldlM_loadLine_iff.mp loaded
    refine ⟨readable, fun before line after split info taken => ?_⟩
    by_cases later : ∃ later ∈ after, ∃ other, Taken later other ∧ other.name = info.name
    · exact .inr (.inl later)
    · have none : ∀ later ∈ after, ∀ other, Taken later other → other.name ≠ info.name :=
        fun line' mem other taken' same => later ⟨line', mem, other, taken', same⟩
      have loaded := get_loaded_iff.mpr ⟨rfl, before, line, after, split, taken, none⟩
      have wellFormed := ((entries info.name info).mp loaded).2
      by_cases formatted : Formatted line info
      · exact .inl formatted
      · refine .inr (.inr ?_)
        rw [split] at wellFormed
        refine (lastOf_append (List.forall_mem_cons.mpr ⟨fun other given => ?_, ?_⟩)).mp wellFormed
        · cases taken.symm.trans (entryOf_of_formatted given)
          exact absurd given formatted
        · exact fun later mem other given => none later mem other (entryOf_of_formatted given)
  · rintro ⟨readable, harmless⟩
    have loaded : load (some text) = .ok _ := foldlM_loadLine_iff.mpr ⟨readable, rfl⟩
    have entries : ∀ name info,
        (((entryLines text).filterMap entryOf).foldl set ∅).get name = some info ↔
          info.name = name ∧ LastOf Formatted (entryLines text) info := by
      intro name info
      rw [get_loaded_iff]
      refine and_congr_right fun here => ⟨lastOf_formatted harmless, fun last => ?_⟩
      obtain ⟨before, line, after, split, formatted, -⟩ := id last
      have mem : line ∈ entryLines text :=
        split ▸ List.mem_append_right _ List.mem_cons_self
      have taken : Taken line info := entryOf_of_formatted formatted
      obtain ⟨other, same, taken⟩ := exists_lastOf mem taken
      rwa [last.unique functional (lastOf_formatted harmless taken) same.symm]
    refine ⟨_, loaded, fun name info present => ?_, entries⟩
    obtain ⟨rfl, before, line, after, -, formatted, -⟩ := (entries name info).mp present
    exact isValidPath_of_entryOf (entryOf_of_formatted formatted)

section Examples

/-- Two entries, one with spaces around its name, at the limits of the integers. -/
def twoEntries : SyncState :=
  ((∅ : SyncState).set ⟨bytes " a  b ", 0, Int64.minValue, 0⟩).set
    ⟨bytes "c", 0xFFFFFFFFFFFFFFFF, Int64.maxValue, 0xFFFFFFFFFFFFFFFF⟩

theorem load_saved_twoEntries : load (some twoEntries.saved) = .ok twoEntries := by
  refine load_saved fun name info present => ?_
  rw [twoEntries, get_set, get_set, get_empty] at present
  split at present
  · rename_i same
    rw [same]
    decide
  · split at present
    · rename_i same
      rw [same]
      decide
    · cases present

/-- A hash that is no number in base 16 throws. -/
theorem load_throws : ¬∀ text : Bytes, Safe text := by
  intro claim
  obtain ⟨s, loaded, -⟩ := claim (HEADER ++ newline :: bytes "zz 1 1 a")
  have thrown : (load (some (HEADER ++ newline :: bytes "zz 1 1 a"))).isOk = false := by
    decide +kernel
  rw [loaded] at thrown
  cases thrown

/-- A hash of fewer digits with more text behind them takes the place of a well-formed
line's. -/
example : ((load (some (HEADER ++ newline :: bytes "00000000000000aa 5 7 a\n12zz 1 1 a"))).map
    fun s => s.get (bytes "a")) = .ok (some ⟨bytes "a", 1, 1, 0x12⟩) := by
  decide +kernel

end Examples

end SyncState

end SisOp
