import SisOp.Cluster.Resync
import Mathlib.Data.List.Sort
import Mathlib.Data.List.TakeWhile

/-!
# Account records on disk and on the wire

`server/accounts.cpp` with the files behind it: one line a user, written to a
temporary file that is then renamed. `Stores` relates the directory to the records
the cluster works with. `derive` is the key derivation of the cryptographic library.

Main result: `records_survive`.
-/

namespace SisOp.Records

open Lib Std

def SALT_SIZE : Nat := 16

/-- The directory of the accounts: the text of each of its files. -/
abbrev Dir := ExtTreeMap Bytes Bytes

/-- The name `make_temp_path` makes of random digits. -/
def tempName (random : Bytes) : Bytes := RESERVED_PREFIX ++ (bytes "_tmp_" ++ random)

/-- `std::getline` on a file just opened. -/
def getLine (text : Bytes) : Option Bytes :=
  if text.isEmpty then none else some (text.takeWhile (· ≠ newline))

/-- `Accounts::get`. -/
def get (dir : Dir) (user : Bytes) : Option Bytes := do
  let text ← dir[user]?
  let record ← getLine text
  if isValidRecord record then pure record else none

/-- `Accounts::write`; a file that cannot be renamed stays under its temporary name. -/
def write (dir : Dir) (random user record : Bytes) (flushed renamed : Bool) : Dir × Bool :=
  let temp := dir.insert (tempName random) (record ++ [newline])
  if flushed then
    if renamed then ((temp.erase (tempName random)).insert user (record ++ [newline]), true)
    else (temp, false)
  else (temp.erase (tempName random), false)

/-- `Accounts::create`. -/
def create (dir : Dir) (random user record : Bytes) (flushed renamed : Bool) : Dir × Bool :=
  if user ∈ dir then (dir, false) else write dir random user record flushed renamed

/-- `Accounts::all`, in user order. -/
def all (dir : Dir) : List (Bytes × Bytes) :=
  (dir.keys.filter isValidUsername).filterMap fun user =>
    (get dir user).map fun record => (user, record)

/-! ## A record comes back -/

section Get

variable {dir : Dir} {random user record : Bytes} {flushed renamed : Bool}

/-- A record comes back as the first line of its file. -/
theorem getLine_line (plain : newline ∉ record) : getLine (record ++ [newline]) = some record := by
  have filled : ¬ (record ++ [newline]).isEmpty = true :=
    mt List.isEmpty_iff.mp (List.append_ne_nil_of_right_ne_nil _ (List.cons_ne_nil _ _))
  have whole : record.takeWhile (· ≠ newline) = record :=
    List.takeWhile_eq_self_iff.mpr fun c mem => decide_eq_true fun same => plain (same ▸ mem)
  rw [getLine, if_neg filled, List.takeWhile_append, whole, if_pos rfl,
    List.takeWhile_cons_of_neg (by decide), List.append_nil]

/-- `get` reads a valid record. -/
theorem get_of_line (valid : isValidRecord record = true)
    (here : dir[user]? = some (record ++ [newline])) : get dir user = some record := by
  simp only [get, here, Option.bind_eq_bind, Option.bind_some,
    getLine_line (newline_not_mem_of_isValidRecord valid), if_pos valid]
  rfl

/-- A temporary file is nobody's account. -/
theorem tempName_invalid (random : Bytes) : isValidUsername (tempName random) = false := by
  have dot : (0x2E : UInt8) ∈ tempName random := List.mem_append_left _ (by decide +kernel)
  unfold isValidUsername
  split
  · rfl
  · rw [List.all_eq_false]
    exact ⟨0x2E, dot, by decide⟩

theorem ne_tempName (valid : isValidUsername user = true) (random : Bytes) :
    user ≠ tempName random := by
  rintro rfl
  rw [tempName_invalid] at valid
  cases valid

/-- Of the other files only one of a temporary name is touched. -/
theorem getElem?_write {other : Bytes} (away : other ≠ tempName random) :
    (write dir random user record flushed renamed).1[other]? =
      if (flushed && renamed) = true ∧ other = user then some (record ++ [newline])
      else dir[other]? := by
  unfold write
  dsimp only
  cases flushed with
  | false =>
    rw [if_neg Bool.false_ne_true, if_neg fun both => Bool.false_ne_true both.1,
      Map.getElem?_erase, if_neg away, Map.getElem?_insert, if_neg away]
  | true =>
    cases renamed with
    | false =>
      rw [if_pos rfl, if_neg Bool.false_ne_true, if_neg fun both => Bool.false_ne_true both.1,
        Map.getElem?_insert, if_neg away]
    | true =>
      simp only [if_true, Bool.and_true, true_and, Map.getElem?_insert, Map.getElem?_erase,
        if_neg away]

/-- A write that nothing disturbs stores the record. -/
theorem write_done :
    (write dir random user record true true).2 = true ∧
      (write dir random user record true true).1[user]? = some (record ++ [newline]) := by
  refine ⟨rfl, ?_⟩
  rw [write, if_pos rfl, if_pos rfl, Map.getElem?_insert, if_pos rfl]

end Get

/-! ## The directory holds the records -/

/-- Every user's file is the line of its record; other files may be left over. -/
def Stores (dir : Dir) (a : Accounts) : Prop :=
  ∀ user, isValidUsername user = true →
    dir[user]? = (a.records[user]?).map fun record => record.val ++ [newline]

/-- `all` lists what `get` reads. -/
theorem mem_all_iff {dir : Dir} {user record : Bytes} :
    (user, record) ∈ all dir ↔ get dir user = some record ∧ isValidUsername user = true := by
  simp only [all, List.mem_filterMap, List.mem_filter, Option.map_eq_some_iff, Prod.mk.injEq]
  constructor
  · rintro ⟨u, ⟨-, named⟩, r, got, rfl, rfl⟩
    exact ⟨got, named⟩
  · rintro ⟨got, named⟩
    refine ⟨user, ⟨?_, named⟩, record, got, rfl, rfl⟩
    obtain ⟨text, present, -⟩ := Option.bind_eq_some_iff.mp got
    rw [ExtTreeMap.mem_keys, Map.mem_iff_ne_none, present]
    exact Option.some_ne_none text

theorem pairwise_all (dir : Dir) : (all dir).Pairwise fun x y => compare x.1 y.1 = .lt := by
  refine List.Pairwise.filterMap _ ?_ (ExtTreeMap.ordered_keys.filter isValidUsername)
  intro user user' below entry first entry' second
  obtain ⟨-, -, rfl⟩ := Option.map_eq_some_iff.mp first
  obtain ⟨-, -, rfl⟩ := Option.map_eq_some_iff.mp second
  exact below

namespace Stores

variable {dir : Dir} {a : Accounts} {random user record : Bytes} {flushed renamed : Bool}

theorem empty : Stores ∅ ∅ := by
  intro user _
  rw [ExtTreeMap.getElem?_empty]
  exact (congrArg (Option.map _) ExtTreeMap.getElem?_empty).symm

/-- The files hold the accounts. -/
theorem get_eq (stores : Stores dir a) (named : isValidUsername user = true) :
    get dir user = a.get user := by
  have file := stores user named
  cases present : a.records[user]? with
  | none =>
    rw [present] at file
    simp only [get, Accounts.get, file, present, Option.map_none, Option.bind_eq_bind,
      Option.bind_none]
  | some record =>
    rw [present] at file
    rw [get_of_line record.property file, Accounts.get, present]
    rfl

/-- A write that fails changes no record. -/
theorem write (stores : Stores dir a) (valid : isValidRecord record = true) :
    Stores (write dir random user record flushed renamed).1
      (if (flushed && renamed) = true then a.put user record valid else a) := by
  intro other named
  rw [getElem?_write (ne_tempName named random), stores other named]
  cases flushed && renamed with
  | false => rw [if_neg fun both => Bool.false_ne_true both.1, if_neg Bool.false_ne_true]
  | true =>
    rw [if_pos rfl, Accounts.put, Map.getElem?_insert]
    simp only [true_and]
    split
    · rfl
    · rfl

/-- `create` on the files does what it does on the accounts. -/
theorem create (stores : Stores dir a) (named : isValidUsername user = true)
    (valid : isValidRecord record = true) :
    (create dir random user record true true).2 = (a.create user record valid).2 ∧
      Stores (create dir random user record true true).1 (a.create user record valid).1 := by
  have same : user ∈ dir ↔ user ∈ a.records := by
    rw [Map.mem_iff_ne_none, Map.mem_iff_ne_none, stores user named, ne_eq, ne_eq,
      Option.map_eq_none_iff]
  unfold Records.create Accounts.create
  by_cases there : user ∈ a.records
  · rw [if_pos (same.mpr there), if_pos there]
    exact ⟨rfl, stores⟩
  · rw [if_neg (mt same.mp there), if_neg there]
    exact ⟨rfl, stores.write valid⟩

/-- The listing is that of the records: both are in user order. -/
theorem all_eq (stores : Stores dir a) : all dir = a.all := by
  have irrefl : Std.Irrefl fun x y : Bytes × Bytes => compare x.1 y.1 = .lt :=
    ⟨fun x same => by rw [Std.compare_self] at same; cases same⟩
  have asymm : Std.Antisymm fun x y : Bytes × Bytes => compare x.1 y.1 = .lt :=
    ⟨fun x y below above => by
      have swapped : compare x.1 y.1 = (compare y.1 x.1).swap := Std.OrientedCmp.eq_swap
      rw [swapped, above] at below
      cases below⟩
  refine List.Pairwise.eq_of_mem_iff (pairwise_all dir) a.pairwise_all fun entry => ?_
  rw [mem_all_iff, Accounts.mem_all_iff]
  exact and_congr_left fun named => by rw [stores.get_eq named]

end Stores

/-! ## The trip of a record -/

section Derive

variable (derive : Bytes → Bytes → Nat → { hash : Bytes // hash.length = HASH_SIZE })

/-- A key derivation that does not fail. -/
def total (password salt : Bytes) (iterations : Nat) : Option Bytes :=
  some (derive password salt iterations)

/-- The text of a record gives back what it was made of. -/
structure Formatted (iterations : Nat) (salt hash : Bytes) : Prop where
  parsed : parse (formatRecord iterations salt hash) = some ⟨iterations, salt, hash⟩
  verified : ∀ password, verify (total derive) (formatRecord iterations salt hash) password = true ↔
    (derive password salt iterations).val = hash

variable {derive}

/-- A record of the format is read back, and verifies what hashes like its password. -/
theorem formatted {iterations : Nat} {salt hash : Bytes} (positive : 0 < iterations)
    (fits : iterations < 10 ^ 9) (filled : salt ≠ []) (size : hash.length = HASH_SIZE) :
    Formatted derive iterations salt hash where
  parsed := parse_formatRecord positive fits filled size
  verified := by
    intro password
    rw [verify_iff (parse_formatRecord positive fits filled size), total, Option.some.injEq]

end Derive

/-- Two strings that fit a message. -/
def Short (strs : Bytes × Bytes) : Prop := strs.1.length ≤ 0xFFFF ∧ strs.2.length ≤ 0xFFFF

/-- A short account is written, and read back. -/
theorem writeAccount_short {account : Bytes × Bytes} (short : Short account) :
    ∃ payload, writeAccount account = some payload ∧ Parses readStrs payload account := by
  have userWritten : Writer.str account.1 = some _ := str_eq_some_iff.mpr ⟨short.1, rfl⟩
  have recordWritten : Writer.str account.2 = some _ := str_eq_some_iff.mpr ⟨short.2, rfl⟩
  refine ⟨_, ?_, parses_strs userWritten recordWritten⟩
  simp only [writeAccount, userWritten, recordWritten]
  rfl

theorem writeEntry_short {entry : FileKey × FileInfo} (user : entry.1.user.length ≤ 0xFFFF)
    (name : entry.2.name.length ≤ 0xFFFF) : (writeEntry entry).isSome := by
  have userWritten : Writer.str entry.1.user = some _ := str_eq_some_iff.mpr ⟨user, rfl⟩
  obtain ⟨info, infoWritten⟩ := writeFileInfo_isSome entry.2 name
  simp only [writeEntry, userWritten, infoWritten]
  rfl

theorem writeManifest_short {accounts : List (Bytes × Bytes)} {entries : List (FileKey × FileInfo)}
    (shortAccounts : ∀ account ∈ accounts, Short account)
    (shortEntries : ∀ entry ∈ entries,
      Short (entry.1.user, entry.1.name) ∧ entry.2.name = entry.1.name) :
    ∃ manifest, writeManifest accounts entries = some manifest := by
  have first : (accounts.mapM writeAccount).isSome := by
    refine mapM_isSome_iff.mpr fun account mem => ?_
    obtain ⟨payload, written, -⟩ := writeAccount_short (shortAccounts account mem)
    exact Option.isSome_of_eq_some written
  have second : (entries.mapM writeEntry).isSome := by
    refine mapM_isSome_iff.mpr fun entry mem => ?_
    obtain ⟨⟨user, name⟩, named⟩ := shortEntries entry mem
    exact writeEntry_short user (named ▸ name)
  obtain ⟨accountBytes, accountsWritten⟩ := Option.isSome_iff_exists.mp first
  obtain ⟨entryBytes, entriesWritten⟩ := Option.isSome_iff_exists.mp second
  exact ⟨_, by simp only [writeManifest, accountsWritten, entriesWritten]; rfl⟩

/-- What is read of a record that was written to a file, to a `ReplAccount` or to a
manifest is this record. -/
structure Survives (record : Bytes) : Prop where
  stored : ∀ dir random user, (write dir random user record true true).2 = true ∧
    get (write dir random user record true true).1 user = some record
  sent : ∀ user, Short (user, record) →
    ∃ payload, writeAccount (user, record) = some payload ∧ Parses readStrs payload (user, record)
  listed : ∀ user accounts entries, (user, record) ∈ accounts →
    (∀ account ∈ accounts, Short account) →
    (∀ entry ∈ entries, Short (entry.1.user, entry.1.name) ∧ entry.2.name = entry.1.name) →
    accounts.length < 2 ^ 32 → entries.length < 2 ^ 32 →
    ∃ manifest, writeManifest accounts entries = some manifest ∧
      Parses readManifest manifest (accounts, entries)

/-- A valid record is read back wherever it was written. -/
theorem survives {record : Bytes} (valid : isValidRecord record = true) : Survives record where
  stored := by
    intro dir random user
    exact ⟨write_done.1, get_of_line valid write_done.2⟩
  sent := fun _ short => writeAccount_short short
  listed := by
    intro user accounts entries _ shortAccounts shortEntries fewAccounts fewEntries
    obtain ⟨manifest, written⟩ := writeManifest_short shortAccounts shortEntries
    exact ⟨manifest, written, parses_writeManifest (fun entry mem => (shortEntries entry mem).2)
      fewAccounts fewEntries written⟩

/-- A `ReplAccount` that is answered `Ok` has its record stored. -/
theorem accepted {b b' : Replica} {payload : Bytes} {body : List Message}
    (answered : applyReplicated b ⟨.replAccount, payload⟩ body = (b', some .ok)) :
    ∃ user record rest, readStrs.run payload = some ((user, record), rest) ∧
      isValidRecord record = true ∧ ∀ dir random, Stores dir b.accounts →
        Stores (write dir random user record true true).1 b'.accounts ∧
          get (write dir random user record true true).1 user = some record := by
  simp only [applyReplicated] at answered
  split at answered
  · cases answered
  · rename_i user record rest read
    split at answered
    · split at answered
      · rename_i valid
        cases answered
        exact ⟨user, record, rest, read, valid, fun dir random stores =>
          ⟨stores.write valid, ((survives valid).stored dir random user).2⟩⟩
      · cases answered
    · cases answered

/-- A record is read back whole from its text, from the directory (which is all that a
restarted server has), from a `ReplAccount` and from a manifest, and one that was accepted
over the network is among those stored. -/
theorem records_survive
    (derive : Bytes → Bytes → Nat → { hash : Bytes // hash.length = HASH_SIZE }) :
    (∀ password salt, salt.length = SALT_SIZE →
      makeRecord (total derive) password (some salt) =
          some (formatRecord ITERATIONS salt (derive password salt ITERATIONS)) ∧
        Formatted derive ITERATIONS salt (derive password salt ITERATIONS)) ∧
    (∀ iterations salt hash, 0 < iterations → iterations < 10 ^ 9 → salt ≠ [] →
      hash.length = HASH_SIZE → Formatted derive iterations salt hash) ∧
    (∀ record, isValidRecord record = true → Survives record) ∧
    (∀ b b' payload body, applyReplicated b ⟨.replAccount, payload⟩ body = (b', some .ok) →
      ∃ user record rest, readStrs.run payload = some ((user, record), rest) ∧
        isValidRecord record = true ∧ ∀ dir random, Stores dir b.accounts →
          Stores (write dir random user record true true).1 b'.accounts ∧
            get (write dir random user record true true).1 user = some record) ∧
    ∀ dir a, Stores dir a → all dir = a.all ∧
      ∀ user, isValidUsername user = true → get dir user = a.get user := by
  refine ⟨fun password salt size => ⟨makeRecord_eq password salt, ?_⟩,
    fun iterations salt hash positive fits filled size => formatted positive fits filled size,
    fun record valid => survives valid, fun b b' payload body answered => accepted answered,
    fun dir a stores => ⟨stores.all_eq, fun user named => stores.get_eq named⟩⟩
  have filled : salt ≠ [] := by
    rintro rfl
    cases size
  exact formatted (by decide) (by decide) filled (derive password salt ITERATIONS).property

end SisOp.Records
