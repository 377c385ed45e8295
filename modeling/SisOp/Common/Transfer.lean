import SisOp.Common.Files

/-!
# A file body between two disks that can fail

`send_file` at one end and `recv_file_body` at the other, on a connection that
delivers every frame. The source can change or stop being readable at any point
(`Source`); the destination can fail to open and any `write` call on it can be
cut short, be interrupted or fail. The receiver reads the stream to its end in
every case, hashes what it receives frame by frame and removes the destination
unless the transfer is whole.

Main result: `transfer_correct`.
-/

namespace SisOp.Transfer

open Lib

/-! ## Fnv1a -/

/-- `Fnv1a::update` on a state. -/
def update (hash : UInt64) (data : Bytes) : UInt64 :=
  data.foldl (fun hash c => (hash ^^^ c.toUInt64) * 1099511628211) hash

/-- The state of a new `Fnv1a`. -/
def initial : UInt64 := 1469598103934665603

theorem update_initial (content : Bytes) : update initial content = fnv1a content := rfl

@[simp] theorem update_nil (hash : UInt64) : update hash [] = hash := rfl

/-- The pieces the contents come in do not matter. -/
theorem update_append (hash : UInt64) (front rest : Bytes) :
    update hash (front ++ rest) = update (update hash front) rest :=
  List.foldl_append

/-! ## Reading a file to its end -/

/-- What `read_fully` gives at an offset of a file that does not change. -/
def readAt (content : Bytes) (offset n : Nat) : Option { data : Bytes // data.length = n } :=
  if whole : offset + n ≤ content.length then
    some ⟨(content.drop offset).take n, by rw [List.length_take, List.length_drop]; omega⟩
  else none

theorem read_source (file : File) : file.source.read = readAt file.content := rfl

/-- The loop of `hash_fd` with `n` rounds left, in pieces of `buffer` bytes. -/
def hashFrom (read : (offset n : Nat) → Option { data : Bytes // data.length = n })
    (buffer size : Nat) : Nat → Nat → UInt64 → Option UInt64
  | 0, _, hash => some hash
  | n + 1, offset, hash =>
    if size ≤ offset then some hash
    else
      let chunk := min (size - offset) buffer
      match read offset chunk with
      | none => none
      | some data => hashFrom read buffer size n (offset + chunk) (update hash data.val)

/-- `hash_fd` with a buffer of `buffer` bytes; the source's has `FILE_CHUNK_SIZE`. -/
def hashFd (read : (offset n : Nat) → Option { data : Bytes // data.length = n })
    (buffer size : Nat) : Option UInt64 :=
  hashFrom read buffer size size 0 initial

theorem hashFrom_readAt {content : Bytes} {buffer : Nat} (positive : 0 < buffer) (n offset : Nat)
    (hash : UInt64) (within : offset ≤ content.length) (enough : content.length - offset ≤ n) :
    hashFrom (readAt content) buffer content.length n offset hash =
      some (update hash (content.drop offset)) := by
  induction n generalizing offset hash with
  | zero => rw [hashFrom, List.drop_of_length_le (by omega), update_nil]
  | succ n ih =>
    rw [hashFrom]
    split
    · rename_i past
      rw [List.drop_of_length_le past, update_nil]
    · rename_i short
      have whole : offset + min (content.length - offset) buffer ≤ content.length := by omega
      have read : readAt content offset (min (content.length - offset) buffer) = some ⟨_, _⟩ :=
        dif_pos whole
      have glued := List.take_append_drop (min (content.length - offset) buffer)
        (content.drop offset)
      rw [List.drop_drop] at glued
      dsimp only
      rw [read]
      dsimp only
      rw [ih _ _ whole (by omega), ← update_append, glued]

/-- The size of the buffer does not show in the hash. -/
theorem hashFd_readAt {buffer : Nat} (positive : 0 < buffer) (content : Bytes) :
    hashFd (readAt content) buffer content.length = some (fnv1a content) := by
  rw [hashFd, hashFrom_readAt positive _ _ _ (Nat.zero_le _) (Nat.sub_le ..), List.drop_zero,
    update_initial]

/-! ## Writing -/

/-- What one `write` call does: it takes some bytes, is interrupted (`EINTR`) or
fails. -/
inductive WriteCall where
  | wrote (n : Nat) | interrupted | failed
  deriving DecidableEq, Repr

/-- `write_fully` at the end of a file, against what the next `write` calls do:
the file, whether all was written and the calls not made. No call succeeds
after the last of the list. -/
def writeFully : List WriteCall → Bytes → Bytes → Bytes × Bool × List WriteCall
  | calls, file, [] => (file, true, calls)
  | [], file, _ :: _ => (file, false, [])
  | .wrote n :: calls, file, data =>
    if n = 0 then (file, false, calls) else writeFully calls (file ++ data.take n) (data.drop n)
  | .interrupted :: calls, file, data => writeFully calls file data
  | .failed :: calls, file, _ => (file, false, calls)

theorem writeFully_ok {calls : List WriteCall} {file data : Bytes}
    (ok : (writeFully calls file data).2.1 = true) :
    (writeFully calls file data).1 = file ++ data := by
  fun_induction writeFully calls file data with
  | case1 => rw [List.append_nil]
  | case2 => cases ok
  | case3 => cases ok
  | case4 calls file data n some_ positive ih =>
    rw [ih ok, List.append_assoc, List.take_append_drop]
  | case5 calls file data some_ ih => exact ih ok
  | case6 => cases ok

/-! ## Receiving -/

/-- The locals of `recv_file_body`, with the destination and what the next
`write` calls on it do. -/
structure Receiving where
  dest : Option Bytes
  calls : List WriteCall
  writeOk : Bool
  received : UInt64
  hash : UInt64
  deriving Repr

/-- How the loop of `recv_file_body` ends: `broken`, `aborted`, or neither. -/
inductive Ending where
  | broken | aborted | whole
  deriving DecidableEq, Repr

/-- `open` with `O_CREAT | O_TRUNC`. -/
def openDest (dest : Option Bytes) (opens : Bool) (calls : List WriteCall) : Receiving where
  dest := if opens then some [] else dest
  calls := calls
  writeOk := opens
  received := 0
  hash := initial

/-- The data of one frame, kept if the file can still be written. -/
def Receiving.take (s : Receiving) (data : Bytes) : Receiving :=
  let kept := if s.writeOk then
      let written := writeFully s.calls (s.dest.getD []) data
      { s with dest := some written.1, writeOk := written.2.1, calls := written.2.2 }
    else s
  { kept with hash := update s.hash data, received := s.received + data.length.toUInt64 }

/-- One round of the loop. -/
def Receiving.round (size : UInt64) (s : Receiving) (msg : Message) : Receiving ⊕ Ending :=
  match msg.type with
  | .fileData =>
    if (size - s.received).toNat < msg.payload.length then .inr .broken
    else .inl (s.take msg.payload)
  | .fileEnd => if s.received ≠ size then .inr .broken else .inr .whole
  | .fileAbort => .inr .aborted
  | _ => .inr .broken

/-- The loop over the frames that arrive: the locals, the ending and the frames
it leaves. A `recv` that gets no frame fails. -/
def Receiving.loop (size : UInt64) : Receiving → List Message → Receiving × Ending × List Message
  | s, [] => (s, .broken, [])
  | s, msg :: msgs =>
    match s.round size msg with
    | .inl next => next.loop size msgs
    | .inr ending => (s, ending, msgs)

structure Received where
  result : TransferResult
  /-- `*hash`, which is set on success only. -/
  hash : Option UInt64
  dest : Option Bytes
  left : List Message
  deriving Repr

/-- `recv_file_body` on a destination, when the frames `msgs` arrive. -/
def recvFileBodyTo (dest : Option Bytes) (opens : Bool) (calls : List WriteCall) (size : UInt64)
    (msgs : List Message) : Received :=
  let (s, ending, left) := (openDest dest opens calls).loop size msgs
  match ending with
  | .broken => ⟨.connectionLost, none, none, left⟩
  | .aborted => ⟨.fileError, none, none, left⟩
  | .whole => if s.writeOk then ⟨.ok, some s.hash, s.dest, left⟩ else ⟨.fileError, none, none, left⟩

/-- The result a loop ends with when the file could be written. -/
def Ending.result : Ending → TransferResult
  | broken => .connectionLost
  | aborted => .fileError
  | whole => .ok

/-- The locals after `content` of a body of `size` bytes is in. -/
structure Holds (size : UInt64) (content : Bytes) (s : Receiving) : Prop where
  count : s.received.toNat = content.length
  within : content.length ≤ size.toNat
  hash : s.hash = update initial content
  dest : s.writeOk = true → s.dest = some content

theorem holds_openDest (dest : Option Bytes) (opens : Bool) (calls : List WriteCall)
    (size : UInt64) : Holds size [] (openDest dest opens calls) where
  count := rfl
  within := Nat.zero_le _
  hash := rfl
  dest opened := if_pos opened

section Loop

variable {size : UInt64} {content : Bytes} {s : Receiving}

/-- `size - received` does not wrap. -/
theorem Holds.remaining (holds : Holds size content s) :
    (size - s.received).toNat = size.toNat - content.length := by
  have le : s.received ≤ size := by
    rw [UInt64.le_iff_toNat_le, holds.count]
    exact holds.within
  rw [UInt64.toNat_sub_of_le _ _ le, holds.count]

theorem Holds.take (holds : Holds size content s) {data : Bytes}
    (room : content.length + data.length ≤ size.toNat) :
    Holds size (content ++ data) (s.take data) where
  count := by
    have bound : size.toNat < 2 ^ 64 := size.toNat_lt
    have length : data.length.toUInt64.toNat = data.length := by
      rw [Nat.toUInt64, UInt64.toNat_ofNat']
      exact Nat.mod_eq_of_lt (by omega)
    have count : (s.take data).received = s.received + data.length.toUInt64 := rfl
    rw [count, UInt64.toNat_add, length, holds.count, List.length_append]
    exact Nat.mod_eq_of_lt (by omega)
  within := by rwa [List.length_append]
  hash := by
    have hash : (s.take data).hash = update s.hash data := rfl
    rw [hash, holds.hash, update_append]
  dest written := by
    unfold Receiving.take at written ⊢
    by_cases before : s.writeOk = true
    · simp only [if_pos before] at written ⊢
      rw [holds.dest before, Option.getD_some] at written ⊢
      rw [writeFully_ok written]
    · simp only [if_neg before] at written
      exact absurd written before

/-- A round does what `recvFrame` says, whatever becomes of the file. -/
theorem Holds.round (holds : Holds size content s) (msg : Message) :
    (∃ next more, s.round size msg = .inl next ∧ recvFrame size.toNat content msg = .inl more ∧
      Holds size more next) ∨
    ∃ ending, s.round size msg = .inr ending ∧
      recvFrame size.toNat content msg = .inr ending.result := by
  obtain ⟨type, payload⟩ := msg
  unfold Receiving.round recvFrame
  cases type with
  | fileData =>
    dsimp only
    rw [holds.remaining]
    by_cases room : size.toNat - content.length < payload.length
    · rw [if_pos room, if_pos room]
      exact .inr ⟨.broken, rfl, rfl⟩
    · rw [if_neg room, if_neg room]
      have within := holds.within
      exact .inl ⟨_, _, rfl, rfl, holds.take (by omega)⟩
  | fileEnd =>
    have same : s.received ≠ size ↔ content.length ≠ size.toNat := by
      rw [← holds.count, ne_eq, ne_eq, UInt64.toNat_inj]
    dsimp only
    by_cases short : s.received ≠ size
    · rw [if_pos short, if_pos (same.mp short)]
      exact .inr ⟨.broken, rfl, rfl⟩
    · rw [if_neg short, if_neg (mt same.mpr short)]
      exact .inr ⟨.whole, rfl, rfl⟩
  | fileAbort => exact .inr ⟨.aborted, rfl, rfl⟩
  | _ => exact .inr ⟨.broken, rfl, rfl⟩

/-- The loop reads what `recvFileBody` reads and ends as it does. -/
theorem Holds.loop (holds : Holds size content s) (msgs : List Message) :
    ∃ last ending left, s.loop size msgs = (last, ending, left) ∧
      ∃ more, recvFileBody size.toNat content msgs = (ending.result, more, left) ∧
        Holds size more last := by
  induction msgs generalizing content s with
  | nil => exact ⟨s, .broken, [], rfl, content, rfl, holds⟩
  | cons msg msgs ih =>
    rw [Receiving.loop, recvFileBody]
    obtain ⟨next, more, round, frame, holds⟩ | ⟨ending, round, frame⟩ := holds.round msg
    · rw [round, frame]
      exact ih holds
    · rw [round, frame]
      exact ⟨s, ending, msgs, rfl, content, rfl, holds⟩

end Loop

/-! ## From one disk to the other -/

/-- What the reads of `send_file` give from an offset on, in the order read;
`none` when one of them fails. -/
def readAll (source : Source) : Nat → Nat → Option Bytes
  | 0, _ => some []
  | n + 1, offset =>
    if source.size.toNat ≤ offset then some []
    else
      let chunk := min (source.size.toNat - offset) FILE_CHUNK_SIZE
      match source.read offset chunk with
      | none => none
      | some data => (readAll source n (offset + chunk)).map (data.val ++ ·)

/-- What `send_file` reads of a file. -/
def contentRead (source : Source) : Option Bytes := readAll source source.size.toNat 0

theorem length_readAll {source : Source} {n offset : Nat} {content : Bytes}
    (within : offset ≤ source.size.toNat) (enough : source.size.toNat - offset ≤ n)
    (read : readAll source n offset = some content) :
    offset + content.length = source.size.toNat := by
  induction n generalizing offset content with
  | zero =>
    cases read
    rw [List.length_nil]
    omega
  | succ n ih =>
    rw [readAll] at read
    split at read
    · cases read
      rw [List.length_nil]
      omega
    · dsimp only at read
      split at read
      · cases read
      · rename_i data _
        obtain ⟨rest, readRest, rfl⟩ := Option.map_eq_some_iff.mp read
        have length := data.property
        have positive : 0 < FILE_CHUNK_SIZE := by decide
        have tail := ih (by omega) (by omega) readRest
        rw [List.length_append, length]
        omega

/-- As many bytes are read as the header announces. -/
theorem length_contentRead {source : Source} {content : Bytes}
    (read : contentRead source = some content) : content.length = source.size.toNat := by
  have whole := length_readAll (Nat.zero_le _) (Nat.sub_le ..) read
  rwa [Nat.zero_add] at whole

private theorem readAll_source (file : File) (n offset : Nat)
    (within : offset ≤ file.content.length) (enough : file.content.length - offset ≤ n) :
    readAll file.source n offset = some (file.content.drop offset) := by
  have size : file.source.size.toNat = file.content.length := file.toNat_size
  induction n generalizing offset with
  | zero => rw [readAll, List.drop_of_length_le (by omega)]
  | succ n ih =>
    rw [readAll, size]
    split
    · rename_i past
      rw [List.drop_of_length_le past]
    · rename_i short
      have positive : 0 < FILE_CHUNK_SIZE := by decide
      have whole : offset + min (file.content.length - offset) FILE_CHUNK_SIZE ≤
          file.content.length := by omega
      have read : file.source.read offset (min (file.content.length - offset) FILE_CHUNK_SIZE) =
          some ⟨_, _⟩ := dif_pos whole
      have glued := List.take_append_drop (min (file.content.length - offset) FILE_CHUNK_SIZE)
        (file.content.drop offset)
      rw [List.drop_drop] at glued
      dsimp only
      rw [read]
      dsimp only
      rw [ih _ whole (by omega), Option.map_some, glued]

/-- A file that does not change is read as it is. -/
theorem contentRead_source (file : File) : contentRead file.source = some file.content := by
  have enough : file.content.length - 0 ≤ file.source.size.toNat :=
    Nat.le_of_eq file.toNat_size.symm
  rw [contentRead, readAll_source file _ 0 (Nat.zero_le _) enough, List.drop_zero]

/-- The frames of a body, up to the last, bring what was read to the receiver. -/
theorem recvFileBody_sendChunks (source : Source) (n : Nat) (received : Bytes)
    (within : received.length ≤ source.size.toNat)
    (enough : source.size.toNat - received.length ≤ n) (left : List Message) :
    match readAll source n received.length with
    | some content => (sendChunks source n received.length).2 = .ok ∧
      recvFileBody source.size.toNat received
        ((sendChunks source n received.length).1 ++ ⟨.fileEnd, []⟩ :: left) =
          (.ok, received ++ content, left)
    | none => (sendChunks source n received.length).2 = .fileError ∧
      ∃ more, recvFileBody source.size.toNat received
        ((sendChunks source n received.length).1 ++ ⟨.fileAbort, []⟩ :: left) =
          (.fileError, more, left) := by
  have finish : received.length = source.size.toNat →
      recvFileBody source.size.toNat received (⟨.fileEnd, []⟩ :: left) =
        (.ok, received ++ [], left) := by
    intro whole
    simp [recvFileBody, recvFrame, whole]
  induction n generalizing received with
  | zero => exact ⟨rfl, finish (by omega)⟩
  | succ n ih =>
    rw [readAll, sendChunks]
    by_cases past : source.size.toNat ≤ received.length
    · rw [if_pos past, if_pos past]
      exact ⟨rfl, finish (by omega)⟩
    · rw [if_neg past, if_neg past]
      dsimp only
      cases source.read received.length
          (min (source.size.toNat - received.length) FILE_CHUNK_SIZE) with
      | none => exact ⟨rfl, received, rfl⟩
      | some data =>
        have length := data.property
        have glued : received.length + min (source.size.toNat - received.length) FILE_CHUNK_SIZE =
            (received ++ data.val).length := by
          rw [List.length_append, length]
        have positive : 0 < FILE_CHUNK_SIZE := by decide
        have room : ¬source.size.toNat - received.length < data.val.length := by omega
        have frame : ∀ frames, recvFileBody source.size.toNat received
            (⟨.fileData, data.val⟩ :: frames) =
              recvFileBody source.size.toNat (received ++ data.val) frames := by
          intro frames
          simp only [recvFileBody, recvFrame, if_neg room]
        have rest := ih (received ++ data.val) (by omega) (by omega)
          (fun whole => by simp [recvFileBody, recvFrame, whole])
        dsimp only
        rw [glued]
        cases tail : readAll source n (received ++ data.val).length with
        | none =>
          rw [tail] at rest
          obtain ⟨aborted, more, body⟩ := rest
          exact ⟨aborted, more, by rw [List.cons_append, frame, body]⟩
        | some content =>
          rw [tail] at rest
          obtain ⟨whole, body⟩ := rest
          refine ⟨whole, ?_⟩
          rw [List.cons_append, frame, body, List.append_assoc]

/-- `send_file` succeeds when it reads the whole file; what it sends after the
header is a body that carries what was read. -/
theorem sendFile_body {type : Msg} {front name : Bytes} {source : Source} {frames : List Message}
    {sent : TransferResult}
    (sending : sendFile type front name (some source) = some (frames, sent)) :
    ∃ header body, frames = header :: body ∧ ∀ left,
      match contentRead source with
      | some content => sent = .ok ∧
        recvFileBody source.size.toNat [] (body ++ left) = (.ok, content, left)
      | none => sent = .fileError ∧
        ∃ more, recvFileBody source.size.toNat [] (body ++ left) = (.fileError, more, left) := by
  obtain ⟨header, -, last⟩ := Option.bind_eq_some_iff.mp sending
  cases last
  refine ⟨_, _, rfl, fun left => ?_⟩
  have body := recvFileBody_sendChunks source source.size.toNat [] (Nat.zero_le _) (Nat.sub_le ..)
    left
  rw [List.append_assoc, List.singleton_append]
  unfold contentRead
  rw [List.length_nil] at body
  cases read : readAll source source.size.toNat 0 with
  | some content =>
    rw [read] at body
    rw [body.1]
    exact ⟨rfl, body.2⟩
  | none =>
    rw [read] at body
    rw [body.1]
    exact ⟨rfl, body.2⟩

/-- The receiver of a body ends as `recvFileBody` does when every write goes
through; else it fails and leaves nothing at the destination. -/
theorem recvFileBodyTo_spec (dest : Option Bytes) (opens : Bool) (calls : List WriteCall)
    {size : UInt64} {msgs left : List Message} {result : TransferResult} {content : Bytes}
    (body : recvFileBody size.toNat [] msgs = (result, content, left)) :
    (recvFileBodyTo dest opens calls size msgs).left = left ∧
    ((recvFileBodyTo dest opens calls size msgs).result = .ok ∧ result = .ok ∧
        (recvFileBodyTo dest opens calls size msgs).dest = some content ∧
        (recvFileBodyTo dest opens calls size msgs).hash = some (fnv1a content) ∨
      (recvFileBodyTo dest opens calls size msgs).result =
          (if result = .ok then .fileError else result) ∧
        (recvFileBodyTo dest opens calls size msgs).dest = none) := by
  obtain ⟨last, ending, left', loop, more, same, holds⟩ :=
    (holds_openDest dest opens calls size).loop msgs
  rw [body] at same
  cases same
  unfold recvFileBodyTo
  rw [loop]
  cases ending with
  | broken => exact ⟨rfl, .inr ⟨rfl, rfl⟩⟩
  | aborted => exact ⟨rfl, .inr ⟨rfl, rfl⟩⟩
  | whole =>
    dsimp only
    split
    · rename_i written
      rw [holds.hash, update_initial, holds.dest written]
      exact ⟨rfl, .inl ⟨rfl, rfl, rfl, rfl⟩⟩
    · exact ⟨rfl, .inr ⟨rfl, rfl⟩⟩

/-- A file that cannot be opened is not announced. Else the body is consumed to
its last frame and no further. When both ends return `Ok` the destination holds
what was read, of the announced size, and the hash is the one `hash_fd` computes
on it with a buffer of any size; else the receiver does not return `Ok` and
there is nothing at the destination. -/
theorem transfer_correct {type : Msg} {front name : Bytes} {source : Option Source}
    {frames : List Message} {sent : TransferResult}
    (sending : sendFile type front name source = some (frames, sent)) :
    match source with
    | none => frames = [] ∧ sent = .notSent
    | some source => ∃ header body, frames = header :: body ∧
      ∀ (opens : Bool) (calls : List WriteCall) (left : List Message),
        let got := recvFileBodyTo none opens calls source.size (body ++ left)
        got.left = left ∧
          if sent = .ok ∧ got.result = .ok then
            ∃ content, contentRead source = some content ∧
              content.length = source.size.toNat ∧ got.dest = some content ∧
              ∀ buffer, 0 < buffer → got.hash = hashFd (readAt content) buffer content.length
          else got.result ≠ .ok ∧ got.dest = none := by
  cases source with
  | none =>
    cases sending
    exact ⟨rfl, rfl⟩
  | some source =>
    obtain ⟨header, body, rfl, arrives⟩ := sendFile_body sending
    refine ⟨header, body, rfl, fun opens calls left => ?_⟩
    dsimp only
    cases read : contentRead source with
    | some content =>
      rw [read] at arrives
      obtain ⟨ok, body⟩ := arrives left
      obtain ⟨consumed, ⟨whole, -, dest, hash⟩ | ⟨failed, dest⟩⟩ :=
        recvFileBodyTo_spec none opens calls body
      · rw [if_pos ⟨ok, whole⟩]
        refine ⟨consumed, content, rfl, length_contentRead read, dest, fun buffer positive => ?_⟩
        rw [hash, hashFd_readAt positive]
      · rw [if_pos rfl] at failed
        rw [failed, if_neg nofun]
        exact ⟨consumed, nofun, dest⟩
    | none =>
      rw [read] at arrives
      obtain ⟨-, more, body⟩ := arrives left
      obtain ⟨consumed, ⟨-, whole, -, -⟩ | ⟨failed, dest⟩⟩ :=
        recvFileBodyTo_spec none opens calls body
      · cases whole
      · rw [if_neg nofun] at failed
        rw [failed, if_neg nofun]
        exact ⟨consumed, nofun, dest⟩

/-- Three bytes sent to a disk that takes one, is interrupted and takes the rest. -/
theorem transfer_correct_piecemeal :
    let file : File := ⟨[1, 2, 3], 0, by decide⟩
    ∃ frames, sendFile .file [] [0x61] (some file.source) = some (frames, .ok) ∧
      (recvFileBodyTo none true [.wrote 1, .interrupted, .wrote 2] 3 frames.tail).dest =
        some [1, 2, 3] := by
  refine ⟨_, rfl, ?_⟩
  obtain ⟨header, body, frames, arrives⟩ := @transfer_correct .file [] [0x61]
    (some (File.source ⟨[1, 2, 3], 0, by decide⟩)) _ _ rfl
  cases frames
  have got := (arrives true [.wrote 1, .interrupted, .wrote 2] []).2
  rw [if_pos (by decide +kernel)] at got
  obtain ⟨content, read, -, dest, -⟩ := got
  cases read
  rw [List.append_nil] at dest
  exact dest

end SisOp.Transfer
