import SisOp.Server.Storage
import SisOp.Server.Accounts

/-!
# One exchange on a replica link

What a primary sends over a replica link and what the backup at the other end
does with it (`put_on_link`, `delete_on_link`, `account_on_link` and
`apply_replicated` of `server/cluster.cpp`), on a link and disks that do not
fail. `Change` is the meaning of an exchange: `Replica.apply` says how it acts
on the backup, and one theorem for each of the three functions says that the
bytes that travel are read back as that change.
-/

namespace SisOp

open Lib Std

/-- What one server keeps on disk. -/
structure Replica where
  storage : Storage
  accounts : Accounts

/-- A change sent over a replica link. -/
inductive Change where
  | put (user name : Bytes) (file : File)
  | delete (user name : Bytes)
  | account (user record : Bytes)

namespace Replica

/-- What a backup does with a change, and whether it answers `Ok`. -/
def apply (b : Replica) : Change → Replica × Bool
  | .put user name file =>
    if isValidUsername user && isValidPath name then
      let committed := b.storage.commit user name file
      ({ b with storage := committed.1 }, committed.2)
    else (b, false)
  | .delete user name =>
    if isValidUsername user && isValidPath name then
      ({ b with storage := (b.storage.remove user name).1 }, true)
    else (b, true)
  | .account user record =>
    if isValidUsername user then
      if valid : isValidRecord record = true then
        ({ b with accounts := b.accounts.put user record valid }, true)
      else (b, false)
    else (b, false)

end Replica

/-! ## The backup's side -/

/-- `str user, file header`. -/
def readUserHeader : Reader (Bytes × FileInfo) := do
  let user ← Reader.str
  let info ← readFileHeader
  pure (user, info)

/-- `str, str`. -/
def readStrs : Reader (Bytes × Bytes) := do
  let first ← Reader.str
  let second ← Reader.str
  pure (first, second)

/-- `apply_replicated`: the backup after a message (and the body frames that
follow a `ReplPut`) and the type of its reply, `none` when it closes the link. -/
def applyReplicated (b : Replica) (msg : Message) (body : List Message) : Replica × Option Msg :=
  match msg.type with
  | .replPut =>
    match readUserHeader.run msg.payload with
    | none => (b, none)
    | some ((user, info), _) =>
      let (result, content, _) := recvFileBody info.size.toNat [] body
      if result = .connectionLost then (b, none)
      else if small : content.length < 2 ^ 63 then
        if result = .ok && isValidUsername user && isValidPath info.name then
          let committed := b.storage.commit user info.name ⟨content, info.mtimeNs, small⟩
          ({ b with storage := committed.1 }, if committed.2 then some .ok else some .error)
        else (b, some .error)
      else (b, some .error)
  | .replDelete =>
    match readStrs.run msg.payload with
    | none => (b, none)
    | some ((user, name), _) =>
      if isValidUsername user && isValidPath name then
        ({ b with storage := (b.storage.remove user name).1 }, some .ok)
      else (b, some .ok)
  | .membership =>
    match readServers.run msg.payload with
    | none => (b, none)
    | some _ => (b, some .ok)
  | .replAccount =>
    match readStrs.run msg.payload with
    | none => (b, none)
    | some ((user, record), _) =>
      if isValidUsername user then
        if valid : isValidRecord record = true then
          ({ b with accounts := b.accounts.put user record valid }, some .ok)
        else (b, some .error)
      else (b, some .error)
  | .heartbeat => (b, some .ok)
  | _ => (b, none)

/-! ## The primary's side -/

/-- A message that `send_locked` accepts. -/
def sendable (payload : Bytes) : Bool := decide (payload.length ≤ MAX_PAYLOAD)

/-- `put_on_link`. The second part is what it returns, `none` when the writer
throws. -/
def putOnLink (primary b : Replica) (user name : Bytes) : Replica × Option Bool :=
  match Writer.str user with
  | none => (b, none)
  | some userField =>
    match primary.storage.file? user name with
    | none => (b, some true) -- `NotSent`: the file is gone
    | some file =>
      match writeFileHeader (file.info name) with
      | none => (b, none)
      | some header =>
        if sendable (userField ++ header) then
          let (b', reply) := applyReplicated b ⟨.replPut, userField ++ header⟩
            (bodyFrames file.content)
          (b', some (reply == some .ok))
        else (b, some false)

/-- `call` on a link, for messages made of two strings. -/
private def callOnLink (b : Replica) (type : Msg) (first second : Bytes) : Replica × Option Bool :=
  match Writer.str first, Writer.str second with
  | some firstField, some secondField =>
    if sendable (firstField ++ secondField) then
      let (b', reply) := applyReplicated b ⟨type, firstField ++ secondField⟩ []
      (b', some (reply == some .ok))
    else (b, some false)
  | _, _ => (b, none)

/-- `delete_on_link`. -/
def deleteOnLink (b : Replica) (user name : Bytes) : Replica × Option Bool :=
  callOnLink b .replDelete user name

/-- `account_on_link`. -/
def accountOnLink (b : Replica) (user record : Bytes) : Replica × Option Bool :=
  callOnLink b .replAccount user record

/-! ## The bytes mean the change -/

variable {primary b : Replica} {user name record : Bytes} {file : File}

theorem parses_strs {first second firstField secondField : Bytes}
    (firstWritten : Writer.str first = some firstField)
    (secondWritten : Writer.str second = some secondField) :
    Parses readStrs (firstField ++ secondField) (first, second) :=
  (parses_str firstWritten).bind ((parses_str secondWritten).bind_pure (f := Prod.mk first))

theorem putOnLink_eq (userValid : isValidUsername user = true)
    (nameValid : isValidPath name = true) (present : primary.storage.file? user name = some file) :
    putOnLink primary b user name =
      ((b.apply (.put user name file)).1, some (b.apply (.put user name file)).2) := by
  have userShort := length_le_of_isValidUsername userValid
  have nameShort := length_le_of_isValidPath nameValid
  have userWritten : Writer.str user = some _ :=
    str_eq_some_iff.mpr ⟨Nat.le_trans userShort (by decide), rfl⟩
  obtain ⟨header, headerWritten⟩ := writeFileHeader_isSome (file.info name)
    (Nat.le_trans nameShort (by decide))
  have size : sendable (Writer.u16 user.length.toUInt16 ++ user ++ header) = true := by
    rw [sendable, decide_eq_true_eq, List.length_append, length_str userWritten,
      length_fileHeader headerWritten]
    simp only [File.info, MAX_PAYLOAD, MAX_USERNAME_LENGTH, MAX_PATH_LENGTH] at *
    omega
  have read : Parses readUserHeader (Writer.u16 user.length.toUInt16 ++ user ++ header)
      (user, { file.info name with hash := 0 }) :=
    (parses_str userWritten).bind ((parses_fileHeader headerWritten).bind_pure (f := Prod.mk user))
  have body := recvFileBody_bodyFrames file.content []
  rw [List.append_nil] at body
  rw [putOnLink, userWritten]
  simp only [present, headerWritten, if_pos size, applyReplicated, read.run_self]
  simp only [File.info, File.toNat_size, body, reduceCtorEq, if_false, dif_pos file.small,
    userValid, nameValid, Replica.apply, decide_true, Bool.and_self, if_true]
  cases (b.storage.commit user name ⟨file.content, file.mtime, file.small⟩).2 <;> rfl

theorem deleteOnLink_eq (userValid : isValidUsername user = true)
    (nameValid : isValidPath name = true) :
    deleteOnLink b user name =
      ((b.apply (.delete user name)).1, some (b.apply (.delete user name)).2) := by
  have userShort := length_le_of_isValidUsername userValid
  have nameShort := length_le_of_isValidPath nameValid
  have userWritten : Writer.str user = some _ :=
    str_eq_some_iff.mpr ⟨Nat.le_trans userShort (by decide), rfl⟩
  have nameWritten : Writer.str name = some _ :=
    str_eq_some_iff.mpr ⟨Nat.le_trans nameShort (by decide), rfl⟩
  have size : sendable (Writer.u16 user.length.toUInt16 ++ user ++
      (Writer.u16 name.length.toUInt16 ++ name)) = true := by
    rw [sendable, decide_eq_true_eq, List.length_append, length_str userWritten,
      length_str nameWritten]
    simp only [MAX_PAYLOAD, MAX_USERNAME_LENGTH, MAX_PATH_LENGTH] at *
    omega
  simp only [deleteOnLink, callOnLink, userWritten, nameWritten, if_pos size, applyReplicated,
    (parses_strs userWritten nameWritten).run_self, userValid, nameValid, Replica.apply,
    Bool.and_self, if_true, BEq.rfl]

/-- An account travels when its record is short enough for a string field;
otherwise the writer throws. -/
theorem accountOnLink_eq (userValid : isValidUsername user = true)
    (recordValid : isValidRecord record = true) :
    accountOnLink b user record =
      if record.length ≤ 0xFFFF then ((b.apply (.account user record)).1, some true)
      else (b, none) := by
  have userShort := length_le_of_isValidUsername userValid
  have userWritten : Writer.str user = some _ :=
    str_eq_some_iff.mpr ⟨Nat.le_trans userShort (by decide), rfl⟩
  split
  · rename_i short
    have recordWritten : Writer.str record = some _ := str_eq_some_iff.mpr ⟨short, rfl⟩
    have size : sendable (Writer.u16 user.length.toUInt16 ++ user ++
        (Writer.u16 record.length.toUInt16 ++ record)) = true := by
      rw [sendable, decide_eq_true_eq, List.length_append, length_str userWritten,
        length_str recordWritten]
      simp only [MAX_PAYLOAD, MAX_USERNAME_LENGTH] at *
      omega
    simp only [accountOnLink, callOnLink, userWritten, recordWritten, if_pos size,
      applyReplicated, (parses_strs userWritten recordWritten).run_self, userValid, recordValid,
      Replica.apply, if_true, dif_pos, BEq.rfl]
  · rename_i long
    have thrown : Writer.str record = none := by
      rw [Writer.str, if_pos (by omega)]
    simp only [accountOnLink, callOnLink, userWritten, thrown]

/-! ## What an exchange leaves alone -/

/-- Of a message only `ReplAccount` touches the accounts. -/
theorem accounts_applyReplicated {msg : Message} {body : List Message}
    (other : msg.type ≠ .replAccount) : (applyReplicated b msg body).1.accounts = b.accounts := by
  unfold applyReplicated
  split
  · split
    · rfl
    · dsimp only
      split
      · rfl
      · split
        · split <;> rfl
        · rfl
  · split
    · rfl
    · split <;> rfl
  · split <;> rfl
  · rename_i account
    exact absurd account other
  · rfl
  · rfl

theorem accounts_putOnLink : (putOnLink primary b user name).1.accounts = b.accounts := by
  unfold putOnLink
  split
  · rfl
  · split
    · rfl
    · split
      · rfl
      · split
        · exact accounts_applyReplicated nofun
        · rfl

theorem accounts_deleteOnLink : (deleteOnLink b user name).1.accounts = b.accounts := by
  unfold deleteOnLink callOnLink
  split
  · split
    · exact accounts_applyReplicated nofun
    · rfl
  · rfl

end SisOp
