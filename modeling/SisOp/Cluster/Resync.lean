import SisOp.Cluster.Replica

/-!
# Bringing a backup up to date

`attach_replica` compares the primary's files and accounts with the manifest
the backup sends and replays the difference over the link: the accounts, then
every put in path order, then every delete. The manifest travels in one frame.
The link and the disks do not fail here; what an interrupted resync leaves
behind is the subject of the replication model.

Main result: `attachReplica_uptodate_iff`, when the backup ends with the
primary's (user, path) → content map.
-/

namespace SisOp

open Lib Std

/-- `FileKey`: user, file name. -/
@[ext] structure FileKey where
  user : Bytes
  name : Bytes
  deriving DecidableEq, Repr

instance : Ord FileKey where
  compare := compareLex (compareOn FileKey.user) (compareOn FileKey.name)

theorem compare_fileKey : (compare : FileKey → FileKey → Ordering) =
    compareLex (compareOn FileKey.user) (compareOn FileKey.name) := rfl

instance : TransOrd FileKey := by
  unfold TransOrd
  rw [compare_fileKey]
  infer_instance

instance : LawfulEqOrd FileKey where
  eq_of_compare {a b} same := by
    rw [compare_fileKey, compareLex_eq_eq, compareOn, compareOn, Std.compare_eq_iff_eq,
      Std.compare_eq_iff_eq] at same
    obtain ⟨userA, nameA⟩ := a
    obtain ⟨userB, nameB⟩ := b
    cases same.1
    cases same.2
    rfl

/-! ## File lists -/

/-- Every file of the store, by user and path. -/
def Storage.entries (s : Storage) : List (FileKey × FileInfo) :=
  s.users.flatMap fun user => (s.list user).map fun file => (⟨user, file.name⟩, file)

/-- The map `attach_replica` compares. -/
def Storage.fileMap (s : Storage) : ExtTreeMap FileKey FileInfo := Map.ofPairs s.entries

theorem Storage.mem_entries_iff {s : Storage} (valid : s.Valid) {key : FileKey}
    {info : FileInfo} : (key, info) ∈ s.entries ↔
      ∃ f, s.file? key.user key.name = some f ∧ info = f.info key.name := by
  simp only [entries, List.mem_flatMap, List.mem_map, mem_list_iff, mem_users_iff valid]
  constructor
  · rintro ⟨user, -, file, ⟨f, present, -, eq⟩, same⟩
    obtain ⟨rfl, rfl⟩ := Prod.mk.inj same
    exact ⟨f, present, eq⟩
  · rintro ⟨f, present, rfl⟩
    have occupied : s.file? key.user key.name ≠ none := by rw [present]; nofun
    exact ⟨key.user, mem_userDirs_of_file? occupied, f.info key.name,
      ⟨f, present, valid.path _ _ occupied, rfl⟩, rfl⟩

theorem Storage.getElem?_fileMap {s : Storage} (valid : s.Valid) {key : FileKey}
    {info : FileInfo} : s.fileMap[key]? = some info ↔
      ∃ f, s.file? key.user key.name = some f ∧ info = f.info key.name := by
  rw [← mem_entries_iff valid, fileMap, Map.getElem?_ofPairs]
  intro k v v' left right
  obtain ⟨f, present, rfl⟩ := (mem_entries_iff valid).mp left
  obtain ⟨g, present', rfl⟩ := (mem_entries_iff valid).mp right
  rw [present] at present'
  cases present'
  rfl

theorem Storage.mem_fileMap {s : Storage} (valid : s.Valid) {key : FileKey} :
    key ∈ s.fileMap ↔ s.file? key.user key.name ≠ none := by
  rw [Map.mem_iff_ne_none, Option.ne_none_iff_exists', Option.ne_none_iff_exists']
  constructor
  · rintro ⟨info, present⟩
    obtain ⟨f, file, -⟩ := (getElem?_fileMap valid).mp present
    exact ⟨f, file⟩
  · rintro ⟨f, file⟩
    exact ⟨f.info key.name, (getElem?_fileMap valid).mpr ⟨f, file, rfl⟩⟩

/-! ## The manifest -/

def writeAccount (account : Bytes × Bytes) : Option Bytes := do
  let user ← Writer.str account.1
  let record ← Writer.str account.2
  pure (user ++ record)

def writeEntry (entry : FileKey × FileInfo) : Option Bytes := do
  let user ← Writer.str entry.1.user
  let info ← writeFileInfo entry.2
  pure (user ++ info)

/-- `build_manifest` with the lists it read; `none` when the writer throws. -/
def writeManifest (accounts : List (Bytes × Bytes)) (entries : List (FileKey × FileInfo)) :
    Option Bytes := do
  let accountBytes ← accounts.mapM writeAccount
  let entryBytes ← entries.mapM writeEntry
  pure (Writer.u32 accounts.length.toUInt32 ++ accountBytes.flatten ++
    (Writer.u32 entries.length.toUInt32 ++ entryBytes.flatten))

/-- `build_manifest`, when the hashes the cache has are right. -/
def buildManifest (b : Replica) : Option Bytes := writeManifest b.accounts.all b.storage.entries

/-- One `(str user, file info)` of the manifest. -/
def readEntry : Reader (FileKey × FileInfo) := do
  let user ← Reader.str
  let file ← readFileInfo
  pure (⟨user, file.name⟩, file)

/-- The manifest as `attach_replica` reads it. -/
def readManifest : Reader (List (Bytes × Bytes) × List (FileKey × FileInfo)) := do
  let accounts ← Reader.u32
  let remoteAccounts ← readStrs.repeat accounts.toNat
  let files ← Reader.u32
  let remote ← readEntry.repeat files.toNat
  pure (remoteAccounts, remote)

/-! ## The exchange -/

/-- The payload of `ReplicaAttach`. -/
def attachRequest (self : ServerAddress) (members : List ServerAddress) : Option Bytes := do
  let self ← writeServer self
  let members ← writeServers members
  pure (self ++ members)

def readAttach : Reader (ServerAddress × List ServerAddress) := do
  let primary ← readServer
  let members ← readServers
  pure (primary, members)

/-- The part of `handle_replica_attach` that answers the request: the payload of
`ReplicaManifest`, `none` when the link is closed instead. -/
def answerAttach (accounts : List (Bytes × Bytes)) (entries : List (FileKey × FileInfo))
    (request : Bytes) : Option Bytes :=
  match readAttach.run request with
  | none => none
  | some _ =>
    match writeManifest accounts entries with
    | none => none
    | some manifest => if sendable manifest then some manifest else none

/-- Exchanges one after another, until one does not return true. -/
def sendAll {α : Type} (send : Replica → α → Replica × Option Bool) :
    Replica → List α → Replica × Option Bool
  | b, [] => (b, some true)
  | b, a :: as =>
    match send b a with
    | (b', some true) => sendAll send b' as
    | stopped => stopped

/-- What is sent of the primary's accounts. -/
def accountsToSend (primary : Replica) (remote : ExtTreeMap Bytes Bytes) : List (Bytes × Bytes) :=
  primary.accounts.all.filter fun account => remote[account.1]? ≠ some account.2

/-- The files the backup lacks, or has with another hash or size. -/
def filesToPut (locals remote : ExtTreeMap FileKey FileInfo) : List (FileKey × FileInfo) :=
  locals.toList.filter fun entry => !(remote[entry.1]?.any fun there =>
    there.hash == entry.2.hash && there.size == entry.2.size)

/-- The files only the backup has. -/
def filesToDelete (locals remote : ExtTreeMap FileKey FileInfo) : List (FileKey × FileInfo) :=
  remote.toList.filter fun entry => locals[entry.1]? = none

/-- The loops of `attach_replica` over a manifest. -/
def replay (primary b : Replica) (accounts : List (Bytes × Bytes))
    (files : List (FileKey × FileInfo)) : Replica × Option Bool :=
  let locals := primary.storage.fileMap
  let remote := Map.ofPairs files
  match sendAll (fun b account => accountOnLink b account.1 account.2) b
      (accountsToSend primary (Map.ofPairs accounts)) with
  | (b, some true) =>
    match sendAll (fun b entry => putOnLink primary b entry.1.user entry.1.name) b
        (filesToPut locals remote) with
    | (b, some true) =>
      sendAll (fun b entry => deleteOnLink b entry.1.user entry.1.name) b
        (filesToDelete locals remote)
    | stopped => stopped
  | stopped => stopped

/-- `attach_replica`: the backup afterwards and what the primary's call
returns, `none` when the writer throws. -/
def attachReplica (self : ServerAddress) (members : List ServerAddress) (primary b : Replica) :
    Replica × Option Bool :=
  match attachRequest self members with
  | none => (b, none)
  | some request =>
    if sendable request then
      match answerAttach b.accounts.all b.storage.entries request with
      | none => (b, some false)
      | some manifest =>
        match readManifest.run manifest with
        | none => (b, some false)
        | some ((accounts, files), _) => replay primary b accounts files
    else (b, some false)

/-! ## The manifest arrives as it was built -/

private theorem parses_account {account : Bytes × Bytes} {enc : Bytes}
    (written : writeAccount account = some enc) : Parses readStrs enc account := by
  obtain ⟨user, userWritten, written⟩ := Option.bind_eq_some_iff.mp written
  obtain ⟨record, recordWritten, last⟩ := Option.bind_eq_some_iff.mp written
  cases last
  exact parses_strs userWritten recordWritten

private theorem parses_entry {entry : FileKey × FileInfo} {enc : Bytes}
    (named : entry.2.name = entry.1.name) (written : writeEntry entry = some enc) :
    Parses readEntry enc entry := by
  obtain ⟨user, userWritten, written⟩ := Option.bind_eq_some_iff.mp written
  obtain ⟨info, infoWritten, last⟩ := Option.bind_eq_some_iff.mp written
  cases last
  have read : Parses readEntry (user ++ info) (⟨entry.1.user, entry.2.name⟩, entry.2) :=
    (parses_str userWritten).bind ((parses_fileInfo infoWritten).bind_pure
      (f := fun file => (FileKey.mk entry.1.user file.name, file)))
  rwa [named] at read

/-- A manifest whose lists their counts can hold is read back, each file under
its user and its own name. -/
theorem parses_writeManifest {accounts : List (Bytes × Bytes)}
    {entries : List (FileKey × FileInfo)} {enc : Bytes}
    (named : ∀ entry ∈ entries, entry.2.name = entry.1.name)
    (fewAccounts : accounts.length < 2 ^ 32) (fewEntries : entries.length < 2 ^ 32)
    (written : writeManifest accounts entries = some enc) :
    Parses readManifest enc (accounts, entries) := by
  obtain ⟨accountBytes, accountsWritten, written⟩ := Option.bind_eq_some_iff.mp written
  obtain ⟨entryBytes, entriesWritten, last⟩ := Option.bind_eq_some_iff.mp written
  cases last
  have readAccounts := parses_counted (fun _ _ _ => parses_account) accountsWritten fewAccounts
  have readEntries := parses_counted (fun entry mem _ => parses_entry (named entry mem))
    entriesWritten fewEntries
  have both := readAccounts.bind (k := fun accounts => do
      let entries ← Reader.counted readEntry
      pure (accounts, entries))
    (readEntries.bind_pure (f := Prod.mk accounts))
  simpa only [readManifest, Reader.counted, bind_assoc, List.append_assoc] using both

/-- The bytes of the manifest, when every field can be written. -/
def manifestSize (b : Replica) : Nat :=
  8 + (b.accounts.all.map fun account => 4 + account.1.length + account.2.length).sum +
    (b.storage.entries.map fun entry => 28 + entry.1.user.length + entry.1.name.length).sum

section Manifest

variable {b : Replica} {manifest : Bytes}

private theorem length_writeAccount {account : Bytes × Bytes} {enc : Bytes}
    (written : writeAccount account = some enc) :
    enc.length = 4 + account.1.length + account.2.length := by
  obtain ⟨user, userWritten, written⟩ := Option.bind_eq_some_iff.mp written
  obtain ⟨record, recordWritten, last⟩ := Option.bind_eq_some_iff.mp written
  cases last
  rw [List.length_append, length_str userWritten, length_str recordWritten]
  omega

private theorem length_writeEntry {entry : FileKey × FileInfo} {enc : Bytes}
    (named : entry.2.name = entry.1.name) (written : writeEntry entry = some enc) :
    enc.length = 28 + entry.1.user.length + entry.1.name.length := by
  obtain ⟨user, userWritten, written⟩ := Option.bind_eq_some_iff.mp written
  obtain ⟨info, infoWritten, last⟩ := Option.bind_eq_some_iff.mp written
  obtain ⟨header, headerWritten, hash⟩ := Option.bind_eq_some_iff.mp infoWritten
  cases last
  cases hash
  rw [List.length_append, List.length_append, length_str userWritten,
    length_fileHeader headerWritten, named]
  have eight : (Writer.u64 entry.2.hash).length = 8 := rfl
  omega

private theorem named_of_mem_entries (valid : b.storage.Valid) {entry : FileKey × FileInfo}
    (mem : entry ∈ b.storage.entries) : entry.2.name = entry.1.name := by
  obtain ⟨f, -, eq⟩ := (Storage.mem_entries_iff valid).mp mem
  rw [eq]
  rfl

private theorem writeEntry_isSome (valid : b.storage.Valid) {entry : FileKey × FileInfo}
    (mem : entry ∈ b.storage.entries) : (writeEntry entry).isSome := by
  obtain ⟨f, present, eq⟩ := (Storage.mem_entries_iff valid).mp mem
  have occupied : b.storage.file? entry.1.user entry.1.name ≠ none := by rw [present]; nofun
  have userShort := length_le_of_isValidUsername
    (valid.user _ (Storage.mem_userDirs_of_file? occupied))
  have nameShort := length_le_of_isValidPath (valid.path _ _ occupied)
  have userWritten : Writer.str entry.1.user = some _ :=
    str_eq_some_iff.mpr ⟨Nat.le_trans userShort (by decide), rfl⟩
  obtain ⟨info, infoWritten⟩ := writeFileInfo_isSome entry.2 (by
    rw [eq]
    exact Nat.le_trans nameShort (by decide))
  rw [writeEntry, userWritten, infoWritten]
  rfl

private theorem writeAccount_isSome_iff {account : Bytes × Bytes} (mem : account ∈ b.accounts.all) :
    (writeAccount account).isSome ↔ account.2.length ≤ 0xFFFF := by
  have userShort := length_le_of_isValidUsername (Accounts.mem_all_iff.mp mem).2
  have userWritten : Writer.str account.1 = some _ :=
    str_eq_some_iff.mpr ⟨Nat.le_trans userShort (by decide), rfl⟩
  rw [writeAccount, userWritten]
  by_cases short : account.2.length ≤ 0xFFFF
  · have recordWritten : Writer.str account.2 = some _ := str_eq_some_iff.mpr ⟨short, rfl⟩
    rw [recordWritten]
    exact ⟨fun _ => short, fun _ => rfl⟩
  · have thrown : Writer.str account.2 = none := by
      rw [Writer.str, if_pos (by omega)]
    rw [thrown]
    exact ⟨fun written => (by cases written), fun held => absurd held short⟩

/-- The backup can write its manifest when its records fit a string field. -/
theorem buildManifest_isSome_iff (valid : b.storage.Valid) :
    (buildManifest b).isSome ↔ ∀ account ∈ b.accounts.all, account.2.length ≤ 0xFFFF := by
  have entries : (b.storage.entries.mapM writeEntry).isSome :=
    mapM_isSome_iff.mpr fun _ mem => writeEntry_isSome valid mem
  obtain ⟨items, entriesWritten⟩ := Option.isSome_iff_exists.mp entries
  have accounts : (b.accounts.all.mapM writeAccount).isSome ↔
      ∀ account ∈ b.accounts.all, account.2.length ≤ 0xFFFF := by
    rw [mapM_isSome_iff]
    exact forall₂_congr fun _ mem => writeAccount_isSome_iff mem
  rw [← accounts, buildManifest, writeManifest, entriesWritten]
  cases b.accounts.all.mapM writeAccount <;> simp

theorem length_buildManifest (valid : b.storage.Valid) (built : buildManifest b = some manifest) :
    manifest.length = manifestSize b := by
  obtain ⟨accounts, accountsWritten, built⟩ := Option.bind_eq_some_iff.mp built
  obtain ⟨entries, entriesWritten, last⟩ := Option.bind_eq_some_iff.mp built
  cases last
  simp only [List.length_append, manifestSize,
    length_flatten_of_mapM (fun _ _ _ => length_writeAccount) accountsWritten,
    length_flatten_of_mapM (fun _ mem _ => length_writeEntry (named_of_mem_entries valid mem))
      entriesWritten]
  have four : ∀ v, (Writer.u32 v).length = 4 := fun _ => rfl
  rw [four, four]
  omega

/-- A sum of positive terms bounds the number of terms. -/
private theorem length_le_sum {α : Type} (size : α → Nat) (as : List α)
    (positive : ∀ a ∈ as, 1 ≤ size a) : as.length ≤ (as.map size).sum := by
  induction as with
  | nil => exact Nat.le_refl 0
  | cons a as ih =>
    have head := positive a List.mem_cons_self
    have tail := ih fun b mem => positive b (List.mem_cons_of_mem _ mem)
    rw [List.length_cons, List.map_cons, List.sum_cons]
    omega

/-- A manifest that fits a frame is read back as the accounts and files of the
backup. -/
theorem parses_manifest (valid : b.storage.Valid) (built : buildManifest b = some manifest)
    (fits : manifestSize b ≤ MAX_PAYLOAD) :
    Parses readManifest manifest (b.accounts.all, b.storage.entries) := by
  have accountCount := length_le_sum
    (fun account : Bytes × Bytes => 4 + account.1.length + account.2.length) b.accounts.all
    fun _ _ => by omega
  have entryCount := length_le_sum
    (fun entry : FileKey × FileInfo => 28 + entry.1.user.length + entry.1.name.length)
    b.storage.entries fun _ _ => by omega
  unfold manifestSize MAX_PAYLOAD at fits
  rw [buildManifest] at built
  exact parses_writeManifest (fun _ => named_of_mem_entries valid) (by omega) (by omega) built

end Manifest

/-- The backup can always read the request; what it answers depends on what it
lists alone. -/
theorem answerAttach_eq {self : ServerAddress} {members : List ServerAddress} {request : Bytes}
    (written : attachRequest self members = some request) (accounts : List (Bytes × Bytes))
    (entries : List (FileKey × FileInfo)) :
    answerAttach accounts entries request =
      (writeManifest accounts entries).bind fun manifest =>
        if sendable manifest then some manifest else none := by
  obtain ⟨selfField, selfWritten, written⟩ := Option.bind_eq_some_iff.mp written
  obtain ⟨membersField, membersWritten, last⟩ := Option.bind_eq_some_iff.mp written
  cases last
  obtain ⟨front, rest, rfl, readMembers⟩ := parses_servers membersWritten
  have read : Parses readAttach (selfField ++ front) _ :=
    (parses_server selfWritten).bind (readMembers.bind_pure (f := Prod.mk self))
  rw [answerAttach, ← List.append_assoc, read.run_eq]
  cases writeManifest accounts entries <;> rfl

theorem answerAttach_replica {self : ServerAddress} {members : List ServerAddress}
    {request : Bytes} (written : attachRequest self members = some request) (b : Replica) :
    answerAttach b.accounts.all b.storage.entries request =
      (buildManifest b).bind fun manifest => if sendable manifest then some manifest else none :=
  answerAttach_eq written ..

/-! ## The three loops -/

section Loops

variable {primary b : Replica}

/-- Sending accounts leaves the files alone, and goes through when the records
are short enough. -/
theorem sendAll_accounts (b : Replica) (accounts : List (Bytes × Bytes))
    (valid : ∀ account ∈ accounts,
      isValidUsername account.1 = true ∧ isValidRecord account.2 = true) :
    (sendAll (fun b account => accountOnLink b account.1 account.2) b accounts).1.storage =
        b.storage ∧
      ((sendAll (fun b account => accountOnLink b account.1 account.2) b accounts).2 = some true ↔
        ∀ account ∈ accounts, account.2.length ≤ 0xFFFF) := by
  induction accounts generalizing b with
  | nil => exact ⟨rfl, by simp [sendAll]⟩
  | cons account accounts ih =>
    obtain ⟨userValid, recordValid⟩ := valid account List.mem_cons_self
    have tail := fun b => ih (b := b) fun other mem => valid other (List.mem_cons_of_mem _ mem)
    have kept : (b.apply (.account account.1 account.2)).1.storage = b.storage := by
      simp only [Replica.apply, userValid, recordValid, if_true, dif_pos]
    rw [sendAll, accountOnLink_eq userValid recordValid]
    by_cases short : account.2.length ≤ 0xFFFF
    · rw [if_pos short, List.forall_mem_cons]
      exact ⟨(tail _).1.trans kept, (tail _).2.trans ⟨fun rest => ⟨short, rest⟩, And.right⟩⟩
    · rw [if_neg short, List.forall_mem_cons]
      exact ⟨rfl, fun ok => (by cases ok), fun both => absurd both.1 short⟩

theorem apply_put (key : FileKey) (file : File) (userValid : isValidUsername key.user = true)
    (nameValid : isValidPath key.name = true) :
    (b.apply (.put key.user key.name file)).1.storage =
        (b.storage.commit key.user key.name file).1 ∧
      (b.apply (.put key.user key.name file)).2 =
        (b.storage.commit key.user key.name file).2 := by
  simp only [Replica.apply, userValid, nameValid, Bool.and_self, if_true, and_self]

/-- Sending puts: it goes through exactly when every path fits next to the
files the backup had, and then it changes the paths sent and no other. -/
theorem sendAll_puts (valid : primary.storage.Valid) (b : Replica)
    (entries : List (FileKey × FileInfo))
    (mine : ∀ entry ∈ entries, primary.storage.file? entry.1.user entry.1.name ≠ none) :
    let sent := sendAll (fun b entry => putOnLink primary b entry.1.user entry.1.name) b entries
    (sent.2 = some true ↔ ∀ entry ∈ entries, b.storage.Fits entry.1.user entry.1.name) ∧
      (sent.2 = some true → ∀ key : FileKey, sent.1.storage.file? key.user key.name =
        if key ∈ entries.map Prod.fst then primary.storage.file? key.user key.name
        else b.storage.file? key.user key.name) := by
  induction entries generalizing b with
  | nil =>
    refine ⟨by simp [sendAll], fun _ key => ?_⟩
    rw [sendAll, if_neg (by simp)]
  | cons entry entries ih =>
    obtain ⟨key, info⟩ := entry
    have occupied := mine _ List.mem_cons_self
    obtain ⟨file, present⟩ := Option.ne_none_iff_exists'.mp occupied
    have userValid := valid.user _ (Storage.mem_userDirs_of_file? occupied)
    have nameValid := valid.path _ _ occupied
    obtain ⟨storage, reply⟩ := apply_put (b := b) key file userValid nameValid
    have tail := ih (b := (b.apply (.put key.user key.name file)).1)
      fun other mem => mine other (List.mem_cons_of_mem _ mem)
    rw [storage] at tail
    dsimp only at tail ⊢
    rw [sendAll, putOnLink_eq userValid nameValid present, List.forall_mem_cons]
    cases ok : (b.apply (.put key.user key.name file)).2 with
    | false =>
      rw [reply] at ok
      refine ⟨⟨nofun, fun fits => ?_⟩, nofun⟩
      rw [Storage.commit_ok_iff.mpr fits.1] at ok
      cases ok
    | true =>
      rw [reply] at ok
      have files := fun u p => Storage.file?_commit ok u p
      refine ⟨tail.1.trans ⟨fun rest => ⟨Storage.commit_ok_iff.mp ok, fun other mem => ?_⟩,
        fun fits other mem => ?_⟩, fun sent k => ?_⟩
      · -- a path that fits next to the files with the new one fits without it
        have fits := rest other mem
        have absent : ∀ u p, (b.storage.commit key.user key.name file).1.file? u p = none →
            b.storage.file? u p = none := by
          intro u p none'
          rw [files] at none'
          split at none'
          · cases none'
          · exact none'
        exact ⟨fun q above => absent _ _ (fits.1 q above),
          fun q below => absent _ _ (fits.2 q below)⟩
      · -- the new file is in the way of no other file of the primary
        have fitsBefore := fits.2 other mem
        have otherMine := mine other (List.mem_cons_of_mem _ mem)
        refine ⟨fun q above => ?_, fun q below => ?_⟩ <;> rw [files] <;> split
        · rename_i same
          rw [same.1] at otherMine
          rw [same.2] at above
          exact (occupied (Storage.file?_none_of_mem_dirs otherMine above)).elim
        · exact fitsBefore.1 q above
        · rename_i same
          rw [same.1] at otherMine
          rw [same.2] at below
          exact (otherMine (Storage.file?_none_of_mem_dirs occupied below)).elim
        · exact fitsBefore.2 q below
      · rw [tail.2 sent k, files, List.map_cons]
        by_cases sentLater : k ∈ entries.map Prod.fst
        · rw [if_pos sentLater, if_pos (List.mem_cons_of_mem _ sentLater)]
        · rw [if_neg sentLater]
          by_cases here : k = key
          · subst k
            rw [if_pos ⟨rfl, rfl⟩, if_pos List.mem_cons_self, present]
          · rw [if_neg fun same => here (FileKey.ext same.1 same.2),
              if_neg fun mem => (List.mem_cons.mp mem).elim here sentLater]

/-- Sending deletes always goes through. -/
theorem sendAll_deletes (b : Replica) (entries : List (FileKey × FileInfo))
    (valid : ∀ entry ∈ entries,
      isValidUsername entry.1.user = true ∧ isValidPath entry.1.name = true) :
    let sent := sendAll (fun b entry => deleteOnLink b entry.1.user entry.1.name) b entries
    sent.2 = some true ∧ ∀ key : FileKey, sent.1.storage.file? key.user key.name =
      if key ∈ entries.map Prod.fst then none else b.storage.file? key.user key.name := by
  induction entries generalizing b with
  | nil =>
    refine ⟨rfl, fun key => ?_⟩
    rw [sendAll, if_neg (by simp)]
  | cons entry entries ih =>
    obtain ⟨key, info⟩ := entry
    obtain ⟨userValid, nameValid⟩ := valid _ List.mem_cons_self
    have tail := ih (b := (b.apply (.delete key.user key.name)).1)
      fun other mem => valid other (List.mem_cons_of_mem _ mem)
    have storage : (b.apply (.delete key.user key.name)).1.storage =
        (b.storage.remove key.user key.name).1 := by
      simp only [Replica.apply, userValid, nameValid, Bool.and_self, if_true]
    have reply : (b.apply (.delete key.user key.name)).2 = true := by
      simp only [Replica.apply, userValid, nameValid, Bool.and_self, if_true]
    rw [storage] at tail
    dsimp only at tail ⊢
    rw [sendAll, deleteOnLink_eq userValid nameValid, reply]
    refine ⟨tail.1, fun k => ?_⟩
    rw [tail.2 k, Storage.file?_remove, List.map_cons]
    by_cases sentLater : k ∈ entries.map Prod.fst
    · rw [if_pos sentLater, if_pos (List.mem_cons_of_mem _ sentLater)]
    · rw [if_neg sentLater]
      by_cases here : k = key
      · subst k
        rw [if_pos ⟨rfl, rfl⟩, if_pos List.mem_cons_self]
      · rw [if_neg fun same => here (FileKey.ext same.1 same.2),
          if_neg fun mem => (List.mem_cons.mp mem).elim here sentLater]

end Loops

/-! ## The result -/

/-- What `attach_replica` compares of two files. -/
def sameInfo (f g : File) : Prop :=
  fnv1a f.content = fnv1a g.content ∧ f.content.length = g.content.length

instance (f g : File) : Decidable (sameInfo f g) := inferInstanceAs (Decidable (_ ∧ _))

theorem sameInfo_iff {f g : File} (name : Bytes) :
    sameInfo f g ↔ (f.info name).hash = (g.info name).hash ∧
      (f.info name).size = (g.info name).size := by
  refine and_congr_right fun _ => ⟨fun same => congrArg Nat.toUInt64 same, fun same => ?_⟩
  rw [← f.toNat_size, ← g.toNat_size]
  exact congrArg UInt64.toNat same

section Replay

variable {primary b : Replica}

theorem mem_filesToPut_iff (pv : primary.storage.Valid) (bv : b.storage.Valid)
    {entry : FileKey × FileInfo} :
    entry ∈ filesToPut primary.storage.fileMap b.storage.fileMap ↔
      ∃ f, primary.storage.file? entry.1.user entry.1.name = some f ∧
        entry.2 = f.info entry.1.name ∧
        ∀ g, b.storage.file? entry.1.user entry.1.name = some g → ¬sameInfo g f := by
  obtain ⟨key, info⟩ := entry
  simp only [filesToPut, List.mem_filter, Map.mem_toList_iff, Storage.getElem?_fileMap pv,
    Bool.not_eq_true', ← exists_and_right, and_assoc]
  refine exists_congr fun f => and_congr_right fun present => and_congr_right fun eq => ?_
  subst eq
  rw [Option.any_eq_false]
  constructor
  · intro differs g there same
    have hit := differs (g.info key.name) ((Storage.getElem?_fileMap bv).mpr ⟨g, there, rfl⟩)
    rw [((sameInfo_iff _).mp same).1, ((sameInfo_iff _).mp same).2] at hit
    simp at hit
  · intro differs info listed
    obtain ⟨g, there, rfl⟩ := (Storage.getElem?_fileMap bv).mp listed
    have hit := differs g there
    rw [sameInfo_iff key.name] at hit
    simpa using hit

theorem mem_filesToDelete_iff (pv : primary.storage.Valid) (bv : b.storage.Valid)
    {entry : FileKey × FileInfo} :
    entry ∈ filesToDelete primary.storage.fileMap b.storage.fileMap ↔
      ∃ g, b.storage.file? entry.1.user entry.1.name = some g ∧
        entry.2 = g.info entry.1.name ∧
        primary.storage.file? entry.1.user entry.1.name = none := by
  obtain ⟨key, info⟩ := entry
  have absent : primary.storage.fileMap[key]? = none ↔
      primary.storage.file? key.user key.name = none := by
    rw [← not_iff_not, ← ne_eq, ← ne_eq, ← Map.mem_iff_ne_none, Storage.mem_fileMap pv]
  simp only [filesToDelete, List.mem_filter, Map.mem_toList_iff, Storage.getElem?_fileMap bv,
    decide_eq_true_eq, absent, ← exists_and_right, and_assoc]

/-- What a complete resync leaves at a path: the primary's file, or the
backup's own where the two look the same. -/
def resynced (primary b : Replica) (user name : Bytes) : Option File :=
  (primary.storage.file? user name).map fun f =>
    match b.storage.file? user name with
    | some g => if sameInfo g f then g else f
    | none => f

/-- Puts and deletes together. -/
theorem resynced_eq (pv : primary.storage.Valid) (bv : b.storage.Valid) (key : FileKey) :
    (if key ∈ (filesToDelete primary.storage.fileMap b.storage.fileMap).map Prod.fst then none
      else if key ∈ (filesToPut primary.storage.fileMap b.storage.fileMap).map Prod.fst then
        primary.storage.file? key.user key.name
      else b.storage.file? key.user key.name) = resynced primary b key.user key.name := by
  have deleted : key ∈ (filesToDelete primary.storage.fileMap b.storage.fileMap).map Prod.fst ↔
      primary.storage.file? key.user key.name = none ∧
        b.storage.file? key.user key.name ≠ none := by
    simp only [List.mem_map, Prod.exists, mem_filesToDelete_iff pv bv]
    constructor
    · rintro ⟨key, info, ⟨g, there, -, absent⟩, rfl⟩
      exact ⟨absent, by rw [there]; nofun⟩
    · rintro ⟨absent, occupied⟩
      obtain ⟨g, there⟩ := Option.ne_none_iff_exists'.mp occupied
      exact ⟨key, _, ⟨g, there, rfl, absent⟩, rfl⟩
  have put : key ∈ (filesToPut primary.storage.fileMap b.storage.fileMap).map Prod.fst ↔
      ∃ f, primary.storage.file? key.user key.name = some f ∧
        ∀ g, b.storage.file? key.user key.name = some g → ¬sameInfo g f := by
    simp only [List.mem_map, Prod.exists, mem_filesToPut_iff pv bv]
    constructor
    · rintro ⟨key, info, ⟨f, present, -, differs⟩, rfl⟩
      exact ⟨f, present, differs⟩
    · rintro ⟨f, present, differs⟩
      exact ⟨key, _, ⟨f, present, rfl, differs⟩, rfl⟩
  simp only [deleted, put, resynced]
  cases primary.storage.file? key.user key.name with
  | none => cases b.storage.file? key.user key.name <;> simp
  | some f =>
    cases b.storage.file? key.user key.name with
    | none => simp
    | some g => by_cases same : sameInfo g f <;> simp [same]

theorem replay_spec (pv : primary.storage.Valid) (bv : b.storage.Valid) :
    let sent := replay primary b b.accounts.all b.storage.entries
    (sent.2 = some true ↔
      (∀ account ∈ accountsToSend primary (Map.ofPairs b.accounts.all),
        account.2.length ≤ 0xFFFF) ∧
      ∀ entry ∈ filesToPut primary.storage.fileMap b.storage.fileMap,
        b.storage.Fits entry.1.user entry.1.name) ∧
    (sent.2 = some true → ∀ user name,
      sent.1.storage.file? user name = resynced primary b user name) := by
  have accounts := sendAll_accounts b
    (accountsToSend primary (Map.ofPairs b.accounts.all)) fun account mem => by
      have listed := Accounts.mem_all_iff.mp (List.mem_of_mem_filter mem)
      exact ⟨listed.2, Accounts.valid_of_get listed.1⟩
  dsimp only [replay]
  generalize sendAll (fun b account => accountOnLink b account.1 account.2) b
    (accountsToSend primary (Map.ofPairs b.accounts.all)) = afterAccounts at accounts ⊢
  obtain ⟨b₁, reply⟩ := afterAccounts
  obtain ⟨kept, accountsOk⟩ := accounts
  dsimp only at kept accountsOk
  have puts := sendAll_puts pv b₁
    (filesToPut primary.storage.fileMap b.storage.fileMap) fun entry mem => by
      obtain ⟨f, present, -⟩ := (mem_filesToPut_iff pv bv).mp mem
      rw [present]
      nofun
  rw [kept] at puts
  have remote : b.storage.fileMap = Map.ofPairs b.storage.entries := rfl
  match reply, accountsOk with
  | some true, accountsOk =>
    rw [← remote]
    dsimp only at puts ⊢
    generalize sendAll (fun b entry => putOnLink primary b entry.1.user entry.1.name) b₁
      (filesToPut primary.storage.fileMap b.storage.fileMap) = afterPuts at puts ⊢
    obtain ⟨b₂, reply⟩ := afterPuts
    obtain ⟨putsOk, afterPuts⟩ := puts
    have deletes := sendAll_deletes b₂
      (filesToDelete primary.storage.fileMap b.storage.fileMap) fun entry mem => by
        obtain ⟨g, present, -⟩ := (mem_filesToDelete_iff pv bv).mp mem
        have occupied : b.storage.file? entry.1.user entry.1.name ≠ none := by rw [present]; nofun
        exact ⟨bv.user _ (Storage.mem_userDirs_of_file? occupied), bv.path _ _ occupied⟩
    match reply, putsOk with
    | some true, putsOk =>
      dsimp only at deletes ⊢
      refine ⟨⟨fun _ => ⟨accountsOk.mp rfl, putsOk.mp rfl⟩, fun _ => deletes.1⟩,
        fun _ user name => ?_⟩
      rw [deletes.2 ⟨user, name⟩, afterPuts rfl ⟨user, name⟩]
      exact resynced_eq pv bv ⟨user, name⟩
    | some false, putsOk =>
      exact ⟨⟨nofun, fun both => absurd (putsOk.mpr both.2) nofun⟩, nofun⟩
    | none, putsOk =>
      exact ⟨⟨nofun, fun both => absurd (putsOk.mpr both.2) nofun⟩, nofun⟩
  | some false, accountsOk =>
    exact ⟨⟨nofun, fun both => absurd (accountsOk.mpr both.1) nofun⟩, nofun⟩
  | none, accountsOk =>
    exact ⟨⟨nofun, fun both => absurd (accountsOk.mpr both.1) nofun⟩, nofun⟩

end Replay

/-- The inputs on which a resync does its job: everything that must travel
fits its field and its frame, no path is a file on one side and a folder on the
other, and files that look the same are the same. -/
structure Resyncable (me : ServerAddress) (members : List ServerAddress) (primary b : Replica) :
    Prop where
  request : ∃ request, attachRequest me members = some request ∧ sendable request = true
  records : ∀ account ∈ b.accounts.all, account.2.length ≤ 0xFFFF
  manifest : manifestSize b ≤ MAX_PAYLOAD
  accounts : ∀ account ∈ primary.accounts.all,
    b.accounts.get account.1 ≠ some account.2 → account.2.length ≤ 0xFFFF
  noClash : ∀ user p q, primary.storage.file? user p ≠ none → b.storage.file? user q ≠ none →
    q ∉ dirs p ∧ p ∉ dirs q
  noCollision : ∀ user p f g, primary.storage.file? user p = some f →
    b.storage.file? user p = some g → sameInfo g f → g.content = f.content

section Result

variable {me : ServerAddress} {members : List ServerAddress} {primary b : Replica}

theorem mem_accountsToSend_iff {account : Bytes × Bytes} :
    account ∈ accountsToSend primary (Map.ofPairs b.accounts.all) ↔
      account ∈ primary.accounts.all ∧ b.accounts.get account.1 ≠ some account.2 := by
  rw [accountsToSend, List.mem_filter, decide_eq_true_eq]
  refine and_congr_right fun mem => not_congr ?_
  rw [Map.getElem?_ofPairs, Accounts.mem_all_iff]
  · exact and_iff_left (Accounts.mem_all_iff.mp mem).2
  · intro k v v' left right
    have both := (Accounts.mem_all_iff.mp left).1.symm.trans (Accounts.mem_all_iff.mp right).1
    exact Option.some.inj both

/-- The paths to put fit next to the backup's files exactly when no path is a
file on one side and a folder on the other. -/
theorem fits_iff_noClash (pv : primary.storage.Valid) (bv : b.storage.Valid) :
    (∀ entry ∈ filesToPut primary.storage.fileMap b.storage.fileMap,
      b.storage.Fits entry.1.user entry.1.name) ↔
    ∀ user p q, primary.storage.file? user p ≠ none → b.storage.file? user q ≠ none →
      q ∉ dirs p ∧ p ∉ dirs q := by
  constructor
  · intro fits user p q mine theirs
    obtain ⟨f, present⟩ := Option.ne_none_iff_exists'.mp mine
    by_cases shared : b.storage.file? user p = none
    · have toPut : ((⟨user, p⟩, f.info p) : FileKey × FileInfo) ∈
          filesToPut primary.storage.fileMap b.storage.fileMap :=
        (mem_filesToPut_iff pv bv).mpr ⟨f, present, rfl, fun g there => by
          rw [shared] at there
          cases there⟩
      exact ⟨fun above => theirs ((fits _ toPut).1 q above),
        fun below => theirs ((fits _ toPut).2 q below)⟩
    · exact ⟨fun above => theirs (Storage.file?_none_of_mem_dirs shared above),
        fun below => shared (Storage.file?_none_of_mem_dirs theirs below)⟩
  · intro noClash entry mem
    obtain ⟨f, present, -⟩ := (mem_filesToPut_iff pv bv).mp mem
    have mine : primary.storage.file? entry.1.user entry.1.name ≠ none := by rw [present]; nofun
    refine ⟨fun q above => ?_, fun q below => ?_⟩ <;> by_contra theirs
    · exact (noClash _ _ q mine theirs).1 above
    · exact (noClash _ _ q mine theirs).2 below

theorem resynced_content_iff :
    (∀ user p, (resynced primary b user p).map File.content = primary.storage.content? user p) ↔
      ∀ user p f g, primary.storage.file? user p = some f → b.storage.file? user p = some g →
        sameInfo g f → g.content = f.content := by
  constructor
  · intro equal user p f g mine theirs same
    have here := equal user p
    simp only [resynced, Storage.content?, mine, theirs, Option.map_some, if_pos same] at here
    exact Option.some.inj here
  · intro injective user p
    rw [resynced, Storage.content?]
    cases mine : primary.storage.file? user p with
    | none => rfl
    | some f =>
      cases theirs : b.storage.file? user p with
      | none => rfl
      | some g =>
        by_cases same : sameInfo g f
        · simp only [Option.map_some, if_pos same, injective user p f g mine theirs same]
        · simp only [Option.map_some, if_neg same]

/-- The loops run over what the backup has when its manifest travels, -/
theorem attachReplica_eq (bv : b.storage.Valid)
    (request : ∃ request, attachRequest me members = some request ∧ sendable request = true)
    (records : ∀ account ∈ b.accounts.all, account.2.length ≤ 0xFFFF)
    (fits : manifestSize b ≤ MAX_PAYLOAD) :
    attachReplica me members primary b =
      replay primary b b.accounts.all b.storage.entries := by
  obtain ⟨request, written, small⟩ := request
  obtain ⟨manifest, built⟩ :=
    Option.isSome_iff_exists.mp ((buildManifest_isSome_iff bv).mpr records)
  have size : sendable manifest = true := by
    rw [sendable, decide_eq_true_eq, length_buildManifest bv built]
    exact fits
  simp only [attachReplica, written, if_pos small, answerAttach_replica written, built,
    Option.bind_some, if_pos size, (parses_manifest bv built fits).run_self]

/-- and without a request or a manifest that travels the call never returns true. -/
theorem attachReplica_of_true (bv : b.storage.Valid)
    (returned : (attachReplica me members primary b).2 = some true) :
    ((∃ request, attachRequest me members = some request ∧ sendable request = true) ∧
      (∀ account ∈ b.accounts.all, account.2.length ≤ 0xFFFF) ∧ manifestSize b ≤ MAX_PAYLOAD) ∧
    attachReplica me members primary b = replay primary b b.accounts.all b.storage.entries := by
  have ready : (∃ request, attachRequest me members = some request ∧ sendable request = true) ∧
      (∀ account ∈ b.accounts.all, account.2.length ≤ 0xFFFF) ∧
      manifestSize b ≤ MAX_PAYLOAD := by
    unfold attachReplica at returned
    cases written : attachRequest me members with
    | none =>
      rw [written] at returned
      cases returned
    | some request =>
      rw [written] at returned
      dsimp only at returned
      split at returned
      · rename_i small
        rw [answerAttach_replica written] at returned
        cases built : buildManifest b with
        | none =>
          rw [built] at returned
          cases returned
        | some manifest =>
          rw [built, Option.bind_some] at returned
          by_cases size : sendable manifest = true
          · rw [sendable, decide_eq_true_eq, length_buildManifest bv built] at size
            exact ⟨⟨request, rfl, small⟩,
              (buildManifest_isSome_iff bv).mp (by rw [built]; rfl), size⟩
          · rw [if_neg size] at returned
            cases returned
      · cases returned
  exact ⟨ready, attachReplica_eq bv ready.1 ready.2.1 ready.2.2⟩

/-- **When a resync does its job.** `attach_replica` returns true and leaves the
backup with the primary's (user, path) → content map exactly on the inputs
`Resyncable` describes. -/
theorem attachReplica_uptodate_iff (pv : primary.storage.Valid) (bv : b.storage.Valid) :
    ((attachReplica me members primary b).2 = some true ∧
      ∀ user p, (attachReplica me members primary b).1.storage.content? user p =
        primary.storage.content? user p) ↔ Resyncable me members primary b := by
  by_cases ready : (∃ request, attachRequest me members = some request ∧
      sendable request = true) ∧ (∀ account ∈ b.accounts.all, account.2.length ≤ 0xFFFF) ∧
      manifestSize b ≤ MAX_PAYLOAD
  · obtain ⟨request, records, fits⟩ := ready
    obtain ⟨returned, files⟩ := replay_spec pv bv
    rw [attachReplica_eq bv request records fits, returned, fits_iff_noClash pv bv]
    have content : (replay primary b b.accounts.all b.storage.entries).2 = some true →
        ((∀ user p, (replay primary b b.accounts.all b.storage.entries).1.storage.content? user p =
          primary.storage.content? user p) ↔ ∀ user p f g,
            primary.storage.file? user p = some f → b.storage.file? user p = some g →
              sameInfo g f → g.content = f.content) := by
      intro ok
      rw [← resynced_content_iff]
      refine forall₂_congr fun user p => ?_
      rw [Storage.content?, files ok]
    constructor
    · rintro ⟨⟨accounts, noClash⟩, equal⟩
      have ok := returned.mpr ⟨accounts, (fits_iff_noClash pv bv).mpr noClash⟩
      exact ⟨request, records, fits,
        fun account mem differs => accounts account (mem_accountsToSend_iff.mpr ⟨mem, differs⟩),
        noClash, (content ok).mp equal⟩
    · intro condition
      have accounts : ∀ account ∈ accountsToSend primary (Map.ofPairs b.accounts.all),
          account.2.length ≤ 0xFFFF := fun account mem =>
        condition.accounts account (mem_accountsToSend_iff.mp mem).1
          (mem_accountsToSend_iff.mp mem).2
      have ok := returned.mpr ⟨accounts, (fits_iff_noClash pv bv).mpr condition.noClash⟩
      exact ⟨⟨accounts, condition.noClash⟩, (content ok).mpr condition.noCollision⟩
  · refine ⟨fun both => ?_, fun condition =>
      absurd ⟨condition.request, condition.records, condition.manifest⟩ ready⟩
    exact absurd (attachReplica_of_true bv both.1).1 ready

end Result

/-! ## A file against a folder, and a resync that works -/

section Examples

/-- A server that stores one file of one user. -/
def holding (path content : Bytes) (small : content.length < 2 ^ 63 := by decide) : Replica :=
  ⟨((∅ : Storage).commit (bytes "ana") path ⟨content, 0, small⟩).1, ∅⟩

theorem valid_holding {path content : Bytes} {small : content.length < 2 ^ 63}
    (pathValid : isValidPath path = true) : (holding path content small).storage.Valid :=
  Storage.valid_empty.commit (by decide) pathValid

theorem file?_holding {path content : Bytes} {small : content.length < 2 ^ 63} (u p : Bytes) :
    (holding path content small).storage.file? u p =
      if u = bytes "ana" ∧ p = path then some ⟨content, 0, small⟩ else none := by
  rw [holding, Storage.file?_commit (Storage.commit_ok_iff.mpr
    ⟨fun q _ => Storage.file?_empty _ q, fun q _ => Storage.file?_empty _ q⟩),
    Storage.file?_empty]

def somePrimary : ServerAddress := ⟨1000, bytes "a", 4000⟩

/-- The primary stores the file `x`, the backup the file `x/y`: the put of `x`
comes before the delete of `x/y` and is refused. -/
theorem attachReplica_file_over_folder :
    ¬∀ (me : ServerAddress) (members : List ServerAddress) (primary b : Replica),
      primary.storage.Valid → b.storage.Valid →
        (attachReplica me members primary b).2 = some true ∧
          ∀ user p, (attachReplica me members primary b).1.storage.content? user p =
            primary.storage.content? user p := by
  intro all
  have returned := (all somePrimary [somePrimary] (holding (bytes "x") [1])
    (holding (bytes "x/y") [2]) (valid_holding (by decide)) (valid_holding (by decide))).1
  have refused : (attachReplica somePrimary [somePrimary] (holding (bytes "x") [1])
      (holding (bytes "x/y") [2])).2 = some false := by decide +kernel
  rw [refused] at returned
  cases returned

/-- The primary stores `x`, the backup `y`: afterwards the backup has `x` only. -/
theorem attachReplica_uptodate_disjoint :
    (attachReplica somePrimary [somePrimary] (holding (bytes "x") [1])
        (holding (bytes "y") [2])).2 = some true ∧
      ∀ user p, (attachReplica somePrimary [somePrimary] (holding (bytes "x") [1])
        (holding (bytes "y") [2])).1.storage.content? user p =
          (holding (bytes "x") [1]).storage.content? user p := by
  refine (attachReplica_uptodate_iff (valid_holding (by decide)) (valid_holding (by decide))).mpr
    ⟨⟨_, rfl, rfl⟩, by decide +kernel, by decide +kernel, by decide +kernel, ?_, ?_⟩
  · intro user p q mine theirs
    rw [file?_holding, ne_eq, ite_eq_right_iff, not_forall] at mine theirs
    obtain ⟨⟨-, rfl⟩, -⟩ := mine
    obtain ⟨⟨-, rfl⟩, -⟩ := theirs
    decide
  · intro user p f g mine theirs
    rw [file?_holding] at mine theirs
    split at mine
    · rename_i here
      rw [if_neg fun there => absurd (here.2.symm.trans there.2) (by decide)] at theirs
      cases theirs
    · cases mine

end Examples

end SisOp
