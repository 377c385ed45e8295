import SisOp.Cluster.Resync
import SisOp.Client.Exchanges

/-!
# Payloads are read back as they were written

File infos, server lists, file lists and replica manifests: what a `Writer`
makes of a value, a `Reader` turns back into that value, whatever follows, and a
payload cut short is refused. The writers refuse a string over 65535 bytes. A
list is counted in 16 bits (servers) or 32 bits (files, accounts) and the count
is cut, so the law needs lists that their count can hold.

Main result: `payloads_round_trip`.
-/

namespace SisOp.Payloads

open Lib

/-- `enc` is read as `value` and nothing else is consumed, and no proper prefix
of it is read as anything. -/
def RoundTrip {α : Type} (read : Reader α) (enc : Bytes) (value : α) : Prop :=
  (∀ rest, read.run (enc ++ rest) = some (value, rest)) ∧
    ∀ front, front <+: enc → front ≠ enc → read.run front = none

theorem RoundTrip.of_parses {α : Type} {read : Reader α} {enc : Bytes} {value : α}
    (steady : Steady read) (parses : Parses read enc value) : RoundTrip read enc value := by
  refine ⟨parses, fun front cut proper => ?_⟩
  obtain ⟨tail, rfl⟩ := cut
  refine Parses.cut steady parses fun empty => proper ?_
  rw [empty, List.append_nil]

/-! ## File lists -/

/-- The payload of `FileList` as `handle_list` writes it. -/
def writeFileList (files : List FileInfo) : Option Bytes := do
  let items ← files.mapM writeFileInfo
  pure (Writer.u32 files.length.toUInt32 ++ items.flatten)

/-- The answer to `ListFiles` carries the list of the store. -/
theorem handleList_eq (r : Replica) (user : Bytes) :
    Requests.handleList r user = (writeFileList (r.storage.list user)).map fun payload =>
      if payload.length > MAX_PAYLOAD then Requests.errorReply (bytes "too many files to list")
      else ⟨.fileList, payload⟩ := by
  unfold Requests.handleList writeFileList
  dsimp only
  cases (r.storage.list user).mapM writeFileInfo with
  | none => rfl
  | some items => rfl

theorem steady_fileList : Steady Exchanges.readFileList :=
  steady_u32.bind fun count => steady_fileInfo.repeat count.toNat

theorem writeFileList_isSome_iff {files : List FileInfo} :
    (writeFileList files).isSome ↔ ∀ info ∈ files, info.name.length ≤ 0xFFFF := by
  have each : ∀ info : FileInfo, (writeFileInfo info).isSome ↔ info.name.length ≤ 0xFFFF := by
    intro info
    constructor
    · intro written
      obtain ⟨enc, written⟩ := Option.isSome_iff_exists.mp written
      obtain ⟨header, written, -⟩ := Option.bind_eq_some_iff.mp written
      obtain ⟨name, written, -⟩ := Option.bind_eq_some_iff.mp written
      exact (str_eq_some_iff.mp written).1
    · intro short
      obtain ⟨enc, written⟩ := writeFileInfo_isSome info short
      rw [written]
      rfl
  rw [← forall₂_congr fun info _ => each info, ← mapM_isSome_iff, writeFileList]
  cases files.mapM writeFileInfo <;> simp

/-! ## Manifests -/

theorem steady_strs : Steady readStrs :=
  steady_str.bind fun _ => steady_str.bind fun _ => Steady.pure _

theorem steady_entry : Steady readEntry :=
  steady_str.bind fun _ => steady_fileInfo.bind fun _ => Steady.pure _

theorem steady_manifest : Steady readManifest :=
  steady_u32.bind fun accounts => (steady_strs.repeat accounts.toNat).bind fun _ =>
    steady_u32.bind fun files => (steady_entry.repeat files.toNat).bind fun _ => Steady.pure _

/-! ## The law -/

theorem roundTrip_fileInfo {info : FileInfo} {enc : Bytes}
    (written : writeFileInfo info = some enc) :
    RoundTrip readFileInfo enc info :=
  .of_parses steady_fileInfo (parses_fileInfo written)

theorem roundTrip_servers {servers : List ServerAddress} {enc : Bytes}
    (few : servers.length ≤ 0xFFFF) (written : writeServers servers = some enc) :
    RoundTrip readServers enc servers := by
  obtain ⟨items, itemsWritten, last⟩ := Option.bind_eq_some_iff.mp written
  cases last
  have count : servers.length.toUInt16.toNat = servers.length := by
    rw [Nat.toUInt16, UInt16.toNat_ofNat']
    exact Nat.mod_eq_of_lt (by omega)
  refine .of_parses steady_servers ((parses_u16 servers.length.toUInt16).bind ?_)
  rw [count]
  exact Parses.mapM (fun _ _ _ => parses_server) itemsWritten

theorem roundTrip_fileList {files : List FileInfo} {enc : Bytes} (few : files.length < 2 ^ 32)
    (written : writeFileList files = some enc) : RoundTrip Exchanges.readFileList enc files := by
  obtain ⟨items, itemsWritten, last⟩ := Option.bind_eq_some_iff.mp written
  cases last
  exact .of_parses steady_fileList (parses_counted (fun _ _ _ => parses_fileInfo) itemsWritten few)

/-- Whatever a writer makes of a file info, of at most 65535 servers, of fewer
than 2^32 files or of a manifest with fewer than 2^32 accounts and files is read
back exactly and refused when cut; a file info is written when its name has at
most 65535 bytes. -/
theorem payloads_round_trip :
    (∀ info : FileInfo, info.name.length ≤ 0xFFFF →
      ∃ enc, writeFileInfo info = some enc ∧ RoundTrip readFileInfo enc info) ∧
    (∀ (servers : List ServerAddress) (enc : Bytes), servers.length ≤ 0xFFFF →
      writeServers servers = some enc → RoundTrip readServers enc servers) ∧
    (∀ (files : List FileInfo) (enc : Bytes), files.length < 2 ^ 32 →
      writeFileList files = some enc → RoundTrip Exchanges.readFileList enc files) ∧
    ∀ (accounts : List (Bytes × Bytes)) (entries : List (FileKey × FileInfo)) (enc : Bytes),
      (∀ entry ∈ entries, entry.2.name = entry.1.name) → accounts.length < 2 ^ 32 →
      entries.length < 2 ^ 32 → writeManifest accounts entries = some enc →
      RoundTrip readManifest enc (accounts, entries) := by
  refine ⟨fun info short => ?_, fun servers enc few written => roundTrip_servers few written,
    fun files enc few written => roundTrip_fileList few written,
    fun accounts entries enc named fewAccounts fewEntries written => ?_⟩
  · obtain ⟨enc, written⟩ := writeFileInfo_isSome info short
    exact ⟨enc, written, roundTrip_fileInfo written⟩
  · exact .of_parses steady_manifest (parses_writeManifest named fewAccounts fewEntries written)

/-- A manifest with one account and one file. -/
theorem payloads_round_trip_manifest :
    ∃ enc, writeManifest [(bytes "ana", [])] [(⟨bytes "ana", bytes "a"⟩, ⟨bytes "a", 1, -1, 7⟩)] =
        some enc ∧
      RoundTrip readManifest enc
        ([(bytes "ana", [])], [(⟨bytes "ana", bytes "a"⟩, ⟨bytes "a", 1, -1, 7⟩)]) := by
  refine ⟨_, rfl, payloads_round_trip.2.2.2 _ _ _ (fun entry mem => ?_) (by decide) (by decide) rfl⟩
  rw [List.mem_singleton.mp mem]

/-- 2^32 files are counted as none. -/
theorem list_unread_of_count :
    ¬∀ (files : List FileInfo) (enc : Bytes), writeFileList files = some enc →
      RoundTrip Exchanges.readFileList enc files := by
  intro law
  have length : (List.replicate (2 ^ 32) (⟨[], 0, 0, 0⟩ : FileInfo)).length = 2 ^ 32 :=
    List.length_replicate
  have short : ∀ info ∈ List.replicate (2 ^ 32) (⟨[], 0, 0, 0⟩ : FileInfo),
      info.name.length ≤ 0xFFFF := by
    intro info mem
    rw [List.eq_of_mem_replicate mem]
    exact Nat.zero_le _
  generalize List.replicate (2 ^ 32) (⟨[], 0, 0, 0⟩ : FileInfo) = files at length short
  obtain ⟨enc, written⟩ := Option.isSome_iff_exists.mp (writeFileList_isSome_iff.mpr short)
  have lawful := (law files enc written).1 []
  obtain ⟨items, itemsWritten, last⟩ := Option.bind_eq_some_iff.mp written
  cases last
  have none := @parses_none_of_count FileInfo readFileInfo files
    (by rw [length, Nat.mod_self]) (items.flatten ++ [])
  rw [List.append_assoc] at lawful
  have same := lawful.symm.trans none
  rw [Option.some.injEq, Prod.mk.injEq] at same
  rw [same.1] at length
  exact absurd length (by decide)

end SisOp.Payloads
