import SisOp.Lib.Codec

/-!
# The wire format

`Writer` and `Reader` of `common/protocol.cpp`: big-endian integers and strings
with a 16-bit length. A string over 65535 bytes makes `Writer::str` throw, here
`none`; a payload that is too short makes the reader throw, here a parser that
fails.
-/

namespace SisOp

open Lib

abbrev Bytes := List UInt8

/-- The bytes of a literal of the source. -/
def bytes (text : String) : Bytes := text.toUTF8.data.toList

def MAX_PAYLOAD : Nat := 1024 * 1024

def FILE_CHUNK_SIZE : Nat := 64 * 1024

/-- `enum class Msg`. -/
inductive Msg where
  | ok | error
  | login | logout | ping | listFiles | upload | download | delete
  | loginOk | redirect | pong | fileList | file
  | syncAttach | pushFile | pushDelete | serverList | notice
  | fileData | fileEnd | fileAbort
  | join | joinOk | election | coordinator | replicaAttach | replicaManifest
  | replPut | replDelete | membership | heartbeat | replAccount | statusRequest | status
  deriving DecidableEq, Repr

/-- `msg_name`. -/
def msgName : Msg → Bytes
  | .ok => bytes "Ok" | .error => bytes "Error" | .login => bytes "Login"
  | .logout => bytes "Logout" | .ping => bytes "Ping" | .listFiles => bytes "ListFiles"
  | .upload => bytes "Upload" | .download => bytes "Download" | .delete => bytes "Delete"
  | .loginOk => bytes "LoginOk" | .redirect => bytes "Redirect" | .pong => bytes "Pong"
  | .fileList => bytes "FileList" | .file => bytes "File" | .syncAttach => bytes "SyncAttach"
  | .pushFile => bytes "PushFile" | .pushDelete => bytes "PushDelete"
  | .serverList => bytes "ServerList" | .fileData => bytes "FileData"
  | .fileEnd => bytes "FileEnd" | .fileAbort => bytes "FileAbort" | .join => bytes "Join"
  | .joinOk => bytes "JoinOk" | .election => bytes "Election"
  | .coordinator => bytes "Coordinator" | .replicaAttach => bytes "ReplicaAttach"
  | .replicaManifest => bytes "ReplicaManifest" | .replPut => bytes "ReplPut"
  | .replDelete => bytes "ReplDelete" | .membership => bytes "Membership"
  | .heartbeat => bytes "Heartbeat" | .replAccount => bytes "ReplAccount"
  | .statusRequest => bytes "StatusRequest" | .status => bytes "Status"
  | .notice => bytes "Notice"

structure Message where
  type : Msg
  payload : Bytes
  deriving DecidableEq, Repr

structure ServerAddress where
  id : UInt32
  host : Bytes
  port : UInt16
  deriving DecidableEq, Repr

/-! ## Integers -/

namespace Writer

def u8 (value : UInt8) : Bytes := [value]

def u16 (value : UInt16) : Bytes := u8 (value >>> 8).toUInt8 ++ u8 value.toUInt8

def u32 (value : UInt32) : Bytes := u16 (value >>> 16).toUInt16 ++ u16 value.toUInt16

def u64 (value : UInt64) : Bytes := u32 (value >>> 32).toUInt32 ++ u32 value.toUInt32

def i64 (value : Int64) : Bytes := u64 value.toUInt64

/-- `Writer::str`, which throws `ProtocolError` on a string over 65535 bytes. -/
def str (value : Bytes) : Option Bytes :=
  if value.length > 0xFFFF then none else some (u16 value.length.toUInt16 ++ value)

end Writer

/-- A parser of payload bytes. -/
abbrev Reader := Parser UInt8

namespace Reader

def u8 : Reader UInt8 := do
  match ← Parser.take 1 with
  | [b] => pure b
  | _ => failure

def u16 : Reader UInt16 := do
  let high ← u8
  let low ← u8
  pure (high.toUInt16 <<< 8 ||| low.toUInt16)

def u32 : Reader UInt32 := do
  let high ← u16
  let low ← u16
  pure (high.toUInt32 <<< 16 ||| low.toUInt32)

def u64 : Reader UInt64 := do
  let high ← u32
  let low ← u32
  pure (high.toUInt64 <<< 32 ||| low.toUInt64)

def i64 : Reader Int64 := UInt64.toInt64 <$> u64

def str : Reader Bytes := do
  let size ← u16
  Parser.take size.toNat

end Reader

/-- Two halves of a word put together again. -/
private theorem halves (n w : Nat) (bound : n < 2 ^ (w + w)) :
    (n >>> w % 2 ^ w) <<< w % 2 ^ (w + w) ||| n % 2 ^ w = n := by
  have low : n % 2 ^ w < 2 ^ w := Nat.mod_lt _ (Nat.two_pow_pos w)
  have high : n / 2 ^ w < 2 ^ w := Nat.div_lt_of_lt_mul (by rwa [← Nat.pow_add])
  have whole : 2 ^ w * (n / 2 ^ w) ≤ n := Nat.mul_div_le n _
  rw [Nat.shiftRight_eq_div_pow, Nat.mod_eq_of_lt high, Nat.mod_eq_of_lt,
    ← Nat.shiftLeft_add_eq_or_of_lt low, Nat.shiftLeft_eq, Nat.div_add_mod']
  rw [Nat.shiftLeft_eq, Nat.mul_comm]
  omega

private theorem halves_u16 (v : UInt16) :
    (v >>> 8).toUInt8.toUInt16 <<< 8 ||| v.toUInt8.toUInt16 = v := by
  apply UInt16.toNat_inj.mp
  simp only [UInt16.toNat_or, UInt16.toNat_shiftLeft, UInt8.toNat_toUInt16, UInt16.toNat_toUInt8,
    UInt16.toNat_shiftRight]
  exact halves v.toNat 8 v.toNat_lt

private theorem halves_u32 (v : UInt32) :
    (v >>> 16).toUInt16.toUInt32 <<< 16 ||| v.toUInt16.toUInt32 = v := by
  apply UInt32.toNat_inj.mp
  simp only [UInt32.toNat_or, UInt32.toNat_shiftLeft, UInt16.toNat_toUInt32, UInt32.toNat_toUInt16,
    UInt32.toNat_shiftRight]
  exact halves v.toNat 16 v.toNat_lt

private theorem halves_u64 (v : UInt64) :
    (v >>> 32).toUInt32.toUInt64 <<< 32 ||| v.toUInt32.toUInt64 = v := by
  apply UInt64.toNat_inj.mp
  simp only [UInt64.toNat_or, UInt64.toNat_shiftLeft, UInt32.toNat_toUInt64, UInt64.toNat_toUInt32,
    UInt64.toNat_shiftRight]
  exact halves v.toNat 32 v.toNat_lt

/-- A byte that was written is read back. -/
theorem parses_u8 (v : UInt8) : Parses Reader.u8 (Writer.u8 v) v := fun _ => rfl

theorem parses_u16 (v : UInt16) : Parses Reader.u16 (Writer.u16 v) v := by
  have low := (parses_u8 v.toUInt8).bind_pure
    (f := fun low => (v >>> 8).toUInt8.toUInt16 <<< 8 ||| low.toUInt16)
  rw [halves_u16] at low
  exact (parses_u8 (v >>> 8).toUInt8).bind low

theorem parses_u32 (v : UInt32) : Parses Reader.u32 (Writer.u32 v) v := by
  have low := (parses_u16 v.toUInt16).bind_pure
    (f := fun low => (v >>> 16).toUInt16.toUInt32 <<< 16 ||| low.toUInt32)
  rw [halves_u32] at low
  exact (parses_u16 (v >>> 16).toUInt16).bind low

theorem parses_u64 (v : UInt64) : Parses Reader.u64 (Writer.u64 v) v := by
  have low := (parses_u32 v.toUInt32).bind_pure
    (f := fun low => (v >>> 32).toUInt32.toUInt64 <<< 32 ||| low.toUInt64)
  rw [halves_u64] at low
  exact (parses_u32 (v >>> 32).toUInt32).bind low

/-- A signed value travels as its bits. -/
theorem parses_i64 (v : Int64) : Parses Reader.i64 (Writer.i64 v) v := by
  have read := (parses_u64 v.toUInt64).map (f := UInt64.toInt64)
  rwa [Int64.toInt64_toUInt64] at read

/-! ## Strings -/

/-- `Writer::str` refuses what does not fit its 16-bit length. -/
theorem str_eq_some_iff {value enc : Bytes} :
    Writer.str value = some enc ↔
      value.length ≤ 0xFFFF ∧ enc = Writer.u16 value.length.toUInt16 ++ value := by
  unfold Writer.str
  split
  · exact ⟨nofun, fun both => absurd both.1 (by omega)⟩
  · simp only [Option.some.injEq, eq_comm (a := enc)]
    exact ⟨fun eq => ⟨by omega, eq⟩, fun both => both.2⟩

/-- The length takes two bytes. -/
theorem length_str {value enc : Bytes} (written : Writer.str value = some enc) :
    enc.length = 2 + value.length := by
  rw [(str_eq_some_iff.mp written).2, List.length_append]
  rfl

theorem length_str_le {value enc : Bytes} (written : Writer.str value = some enc) :
    enc.length ≤ 0xFFFF + 2 := by
  have short := (str_eq_some_iff.mp written).1
  rw [length_str written]
  omega

/-- A string that was written is read back. -/
theorem parses_str {value enc : Bytes} (written : Writer.str value = some enc) :
    Parses Reader.str enc value := by
  obtain ⟨short, rfl⟩ := str_eq_some_iff.mp written
  have size : value.length.toUInt16.toNat = value.length := by
    rw [Nat.toUInt16, UInt16.toNat_ofNat']
    exact Nat.mod_eq_of_lt (by omega)
  refine (parses_u16 value.length.toUInt16).bind ?_
  rw [size]
  exact Parses.take value

/-! ## Server addresses -/

def writeServer (server : ServerAddress) : Option Bytes := do
  let host ← Writer.str server.host
  pure (Writer.u32 server.id ++ host ++ Writer.u16 server.port)

def readServer : Reader ServerAddress := do
  let id ← Reader.u32
  let host ← Reader.str
  let port ← Reader.u16
  pure ⟨id, host, port⟩

/-- The count is cut to 16 bits; every server is written all the same. -/
def writeServers (servers : List ServerAddress) : Option Bytes := do
  let items ← servers.mapM writeServer
  pure (Writer.u16 servers.length.toUInt16 ++ items.flatten)

def readServers : Reader (List ServerAddress) := do
  let count ← Reader.u16
  readServer.repeat count.toNat

/-- The address of a server is read back. -/
theorem parses_server {server : ServerAddress} {enc : Bytes}
    (written : writeServer server = some enc) : Parses readServer enc server := by
  unfold writeServer at written
  obtain ⟨host, hostWritten, last⟩ := Option.bind_eq_some_iff.mp written
  cases last
  rw [List.append_assoc]
  exact (parses_u32 server.id).bind ((parses_str hostWritten).bind
    ((parses_u16 server.port).bind_pure
      (f := fun port => ServerAddress.mk server.id server.host port)))

/-- A list of at most 65535 servers is read back whole; of a longer one the
servers past the cut count stay unread. -/
theorem parses_servers {servers : List ServerAddress} {enc : Bytes}
    (written : writeServers servers = some enc) :
    ∃ front rest, enc = front ++ rest ∧
      Parses readServers front (servers.take (servers.length.toUInt16).toNat) := by
  obtain ⟨items, itemsWritten, last⟩ := Option.bind_eq_some_iff.mp written
  cases last
  rw [← List.take_append_drop (servers.length.toUInt16).toNat servers, List.mapM_append]
    at itemsWritten
  obtain ⟨first, firstWritten, itemsWritten⟩ := Option.bind_eq_some_iff.mp itemsWritten
  obtain ⟨rest, -, last⟩ := Option.bind_eq_some_iff.mp itemsWritten
  cases last
  have count : (servers.take (servers.length.toUInt16).toNat).length =
      (servers.length.toUInt16).toNat := by
    rw [List.length_take, Nat.toUInt16, UInt16.toNat_ofNat']
    exact Nat.min_eq_left (Nat.mod_le _ _)
  have read := Parses.mapM (r := readServer) (fun _ _ _ => parses_server) firstWritten
  rw [count] at read
  refine ⟨Writer.u16 servers.length.toUInt16 ++ first.flatten, rest.flatten, ?_, ?_⟩
  · rw [List.flatten_append, List.append_assoc]
  · exact (parses_u16 servers.length.toUInt16).bind read

/-! ## Counted lists -/

section Counted

variable {α : Type} {write : α → Option Bytes} {read : Reader α} {items : List α}
variable {encs : List Bytes}

private theorem toNat_count (few : items.length < 2 ^ 32) :
    items.length.toUInt32.toNat = items.length := by
  rw [Nat.toUInt32, UInt32.toNat_ofNat']
  exact Nat.mod_eq_of_lt few

/-- A list behind its 32-bit count. -/
def Reader.counted (read : Reader α) : Reader (List α) := do
  let count ← Reader.u32
  read.repeat count.toNat

/-- A list of fewer than 2^32 items is read back item by item. -/
theorem parses_counted (each : ∀ a ∈ items, ∀ enc, write a = some enc → Parses read enc a)
    (written : items.mapM write = some encs) (few : items.length < 2 ^ 32) :
    Parses read.counted (Writer.u32 items.length.toUInt32 ++ encs.flatten) items := by
  refine (parses_u32 items.length.toUInt32).bind ?_
  rw [toNat_count few]
  exact Parses.mapM each written

/-- A count of a multiple of 2^32 items is written as zero. -/
theorem parses_none_of_count (wraps : items.length % 2 ^ 32 = 0) :
    Parses read.counted (Writer.u32 items.length.toUInt32) [] := by
  have zero : items.length.toUInt32.toNat = 0 := by
    rw [Nat.toUInt32, UInt32.toNat_ofNat']
    exact wraps
  have none := (parses_u32 items.length.toUInt32).bind (k := fun count => read.repeat count.toNat)
    (by rw [zero]; exact Parses.pure [])
  rwa [List.append_nil] at none

end Counted

/-! ## Truncated payloads -/

/-- What a reader takes does not depend on the bytes behind. -/
theorem steady_u8 : Steady Reader.u8 := by
  refine (Steady.take 1).bind fun front => ?_
  split
  · exact Steady.pure _
  · exact Steady.failure

theorem steady_u16 : Steady Reader.u16 :=
  steady_u8.bind fun _ => steady_u8.bind fun _ => Steady.pure _

theorem steady_u32 : Steady Reader.u32 :=
  steady_u16.bind fun _ => steady_u16.bind fun _ => Steady.pure _

theorem steady_u64 : Steady Reader.u64 :=
  steady_u32.bind fun _ => steady_u32.bind fun _ => Steady.pure _

theorem steady_i64 : Steady Reader.i64 := steady_u64.map

theorem steady_str : Steady Reader.str := steady_u16.bind fun size => Steady.take size.toNat

theorem steady_server : Steady readServer :=
  steady_u32.bind fun _ => steady_str.bind fun _ => steady_u16.bind fun _ => Steady.pure _

/-- The list of servers is read by readers of this kind. -/
theorem steady_servers : Steady readServers :=
  steady_u16.bind fun count => steady_server.repeat count.toNat

/-! ## Frames -/

/-- The value of a message type on the wire. -/
def Msg.code : Msg → UInt16
  | ok => 1 | error => 2
  | login => 10 | logout => 11 | ping => 12 | listFiles => 13 | upload => 14 | download => 15
  | delete => 16
  | loginOk => 20 | redirect => 21 | pong => 22 | fileList => 23 | file => 24
  | syncAttach => 30 | pushFile => 31 | pushDelete => 32 | serverList => 33 | notice => 34
  | fileData => 40 | fileEnd => 41 | fileAbort => 42
  | join => 50 | joinOk => 51 | election => 52 | coordinator => 53 | replicaAttach => 54
  | replicaManifest => 55 | replPut => 56 | replDelete => 57 | membership => 58
  | heartbeat => 59 | replAccount => 60 | statusRequest => 61 | status => 62

/-- The type with a value; both ends only send values that have one. -/
def Msg.ofCode (code : UInt16) : Option Msg :=
  [Msg.ok, .error, .login, .logout, .ping, .listFiles, .upload, .download, .delete, .loginOk,
    .redirect, .pong, .fileList, .file, .syncAttach, .pushFile, .pushDelete, .serverList, .notice,
    .fileData, .fileEnd, .fileAbort, .join, .joinOk, .election, .coordinator, .replicaAttach,
    .replicaManifest, .replPut, .replDelete, .membership, .heartbeat, .replAccount,
    .statusRequest, .status].find? fun type => type.code == code

/-- Each type has its own value. -/
theorem Msg.ofCode_code (type : Msg) : Msg.ofCode type.code = some type := by
  cases type <;> rfl

/-- What `send_locked` writes: the header, then the payload. -/
def writeFrame (m : Message) : Bytes :=
  Writer.u16 m.type.code ++ (Writer.u16 0 ++ (Writer.u32 m.payload.length.toUInt32 ++ m.payload))

/-- `Connection::recv` once the bytes are there; `none` for a frame that
announces too much. -/
def readFrame : Reader (Option Message) := do
  let type ← Reader.u16
  let _ ← Reader.u16
  let length ← Reader.u32
  if length.toNat > MAX_PAYLOAD then pure none
  else
    let payload ← Parser.take length.toNat
    pure ((Msg.ofCode type).map fun type => ⟨type, payload⟩)

/-- A payload `send_locked` accepts. -/
def Message.Fits (m : Message) : Prop := m.payload.length ≤ MAX_PAYLOAD

instance (m : Message) : Decidable m.Fits := inferInstanceAs (Decidable (_ ≤ _))

/-- A frame that fits is read back. -/
theorem parses_frame {m : Message} (fits : m.Fits) : Parses readFrame (writeFrame m) (some m) := by
  have size : m.payload.length.toUInt32.toNat = m.payload.length := by
    rw [Nat.toUInt32, UInt32.toNat_ofNat']
    exact Nat.mod_eq_of_lt (Nat.lt_of_le_of_lt fits (by decide))
  have accepted : ¬m.payload.length.toUInt32.toNat > MAX_PAYLOAD := by
    rw [size]
    exact Nat.not_lt.mpr fits
  have payload := (Parses.take m.payload).bind_pure
    (f := fun payload => (Msg.ofCode m.type.code).map fun type => Message.mk type payload)
  rw [Msg.ofCode_code, Option.map_some] at payload
  refine (parses_u16 m.type.code).bind ((parses_u16 0).bind
    ((parses_u32 m.payload.length.toUInt32).bind ?_))
  rw [if_neg accepted, size, Msg.ofCode_code]
  exact payload

/-- The bytes of frames that follow each other. -/
def wire (frames : List Message) : Bytes := frames.flatMap writeFrame

@[simp] theorem wire_nil : wire [] = [] := rfl

/-- The bytes of one more frame follow those before. -/
theorem wire_concat (frames : List Message) (m : Message) :
    wire (frames ++ [m]) = wire frames ++ writeFrame m := by
  rw [wire, List.flatMap_append, List.flatMap_singleton, wire]

/-- The first frame is read and the rest left. -/
theorem readFrame_wire {m : Message} (fits : m.Fits) (frames : List Message) :
    readFrame.run (wire (m :: frames)) = some (some m, wire frames) := by
  rw [wire, List.flatMap_cons]
  exact (parses_frame fits).run_eq (wire frames)

/-- Without bytes there is nothing to read. -/
theorem readFrame_nil : readFrame.run [] = none := rfl

/-- What is read from whole frames is the first of them. -/
theorem frames_of_read {frames : List Message} {m : Option Message} {rest : Bytes}
    (fits : ∀ m ∈ frames, m.Fits) (read : readFrame.run (wire frames) = some (m, rest)) :
    ∃ first more, frames = first :: more ∧ m = some first ∧ rest = wire more := by
  cases frames with
  | nil => cases read
  | cons first more =>
    rw [readFrame_wire (fits first List.mem_cons_self)] at read
    cases read
    exact ⟨first, more, rfl, rfl, rfl⟩

end SisOp
