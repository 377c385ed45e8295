import SisOp.Common.Protocol

/-!
# Reading frames from a connection

`common/connection.cpp`: `read_some`, `read_exact` and `recv` on a byte stream that
arrives in pieces, with pauses between them. A pause that is longer than what a
call still waits for ends the call; the rest of it is left to the next one.

Main result: `recv_exactly`.
-/

namespace SisOp

open Lib

def HEADER_SIZE : Nat := 8

/-- In milliseconds: once a frame has started, the rest must arrive within this time. -/
def FRAME_TIMEOUT_MS : Nat := 15000

/-- Bytes that can be read together, and the pause before them. -/
structure Arrival where
  pause : Nat
  head : UInt8
  tail : Bytes

namespace Arrival

def chunk (a : Arrival) : Bytes := a.head :: a.tail

end Arrival

/-- What arrives on a connection until it ends, closed by the peer or by an error. -/
structure Incoming where
  arrivals : List Arrival
  ends : Nat

namespace Incoming

/-- Everything that can still be read. -/
def bytes (i : Incoming) : Bytes := i.arrivals.flatMap Arrival.chunk

/-- The pause before the next piece, or before the end. -/
def pause (i : Incoming) : Nat :=
  match i.arrivals with
  | [] => i.ends
  | a :: _ => a.pause

/-- Time passes. -/
def wait (i : Incoming) (ms : Nat) : Incoming :=
  match i.arrivals with
  | [] => { i with ends := i.ends - ms }
  | a :: rest => { i with arrivals := { a with pause := a.pause - ms } :: rest }

/-- The next piece without its first `size` bytes. -/
def advance (i : Incoming) (size : Nat) : Incoming :=
  match i.arrivals with
  | [] => i
  | a :: rest =>
    match a.chunk.drop size with
    | [] => { i with arrivals := rest }
    | b :: more => { i with arrivals := ⟨0, b, more⟩ :: rest }

/-- What one `SSL_read` of at most `size` bytes gives. -/
def front (i : Incoming) (size : Nat) : Bytes :=
  match i.arrivals with
  | [] => []
  | a :: _ => a.chunk.take size

end Incoming

inductive IoStatus where
  | ok | timeout | closed
  deriving DecidableEq

/-- The message is whatever the header says, known type or not. -/
inductive RecvStatus where
  | ok (type : UInt16) (payload : Bytes)
  | timeout
  | closed
  deriving DecidableEq

/-- `Connection::read_some`; a negative timeout is none. -/
def readSome (size : Nat) (timeout : Option Nat) (i : Incoming) : IoStatus × Bytes × Incoming :=
  match timeout with
  | some ms =>
    if i.pause > ms then (.timeout, [], i.wait ms)
    else if i.arrivals.isEmpty then (.closed, [], i)
    else (.ok, i.front size, i.advance size)
  | none =>
    if i.arrivals.isEmpty then (.closed, [], i)
    else (.ok, i.front size, i.advance size)

/-- `Connection::read_exact`; each turn of the loop reads at least one byte, so
`size` turns are enough. -/
def readExact : Nat → Nat → Incoming → Option Bytes × Incoming
  | _, 0, i => (some [], i)
  | 0, _ + 1, i => (none, i)
  | turns + 1, size + 1, i =>
    match readSome (size + 1) (some FRAME_TIMEOUT_MS) i with
    | (.ok, got, i) =>
      let rest := readExact turns (size + 1 - got.length) i
      (rest.1.map (got ++ ·), rest.2)
    | (_, _, i) => (none, i)

/-- The fields of a header. -/
def readHeader : Reader (UInt16 × UInt32) := do
  let type ← Reader.u16
  let _ ← Reader.u16
  let length ← Reader.u32
  pure (type, length)

/-- `Connection::recv`. -/
def recv (timeout : Option Nat) (i : Incoming) : RecvStatus × Incoming :=
  match readSome HEADER_SIZE timeout i with
  | (.timeout, _, i) => (.timeout, i)
  | (.closed, _, i) => (.closed, i)
  | (.ok, got, i) =>
    match readExact HEADER_SIZE (HEADER_SIZE - got.length) i with
    | (none, i) => (.closed, i)
    | (some more, i) =>
      match readHeader.run (got ++ more) with
      | none => (.closed, i)
      | some ((type, length), _) =>
        if length.toNat > MAX_PAYLOAD then (.closed, i)
        else
          match readExact length.toNat length.toNat i with
          | (none, i) => (.closed, i)
          | (some payload, i) => (.ok type payload, i)

/-- The frame `send_locked` writes. -/
def sendLocked (m : Message) : Option Bytes :=
  if m.payload.length > MAX_PAYLOAD then none else some (writeFrame m)

/-- One call after the other, until one says that the connection is closed. -/
def recvAll : List (Option Nat) → Incoming → List RecvStatus
  | [], _ => []
  | timeout :: timeouts, i =>
    match recv timeout i with
    | (.closed, _) => [.closed]
    | (status, i) => status :: recvAll timeouts i

/-! ## One read -/

section Read

variable {i i' : Incoming} {size : Nat} {timeout : Option Nat} {got : Bytes}

theorem Incoming.bytes_wait (i : Incoming) (ms : Nat) : (i.wait ms).bytes = i.bytes := by
  unfold wait bytes
  split
  · rename_i empty
    rw [empty]
  · rename_i a rest first
    rw [first]
    rfl

theorem Incoming.front_advance (i : Incoming) (size : Nat) :
    i.front size ++ (i.advance size).bytes = i.bytes := by
  unfold front advance bytes
  split
  · rename_i empty
    rw [empty]
    rfl
  · rename_i a rest first
    rw [first, List.flatMap_cons]
    conv => rhs; rw [← List.take_append_drop size a.chunk, List.append_assoc]
    split
    · rename_i nothing
      rw [nothing]
      rfl
    · rename_i b more left
      rw [left]
      rfl

theorem Incoming.front_length (some_ : i.arrivals ≠ []) (positive : 0 < size) :
    0 < (i.front size).length ∧ (i.front size).length ≤ size := by
  unfold front
  split
  · rename_i empty
    exact absurd empty some_
  · rename_i a rest first
    rw [List.length_take, Arrival.chunk, List.length_cons]
    omega

/-- What a read does: it times out and leaves everything, it finds the end, or it
takes some of the next bytes. -/
theorem readSome_cases (size : Nat) (timeout : Option Nat) (i : Incoming) :
    (∃ ms, timeout = some ms ∧ i.pause > ms ∧
      readSome size timeout i = (.timeout, [], i.wait ms)) ∨
    (i.arrivals = [] ∧ readSome size timeout i = (.closed, [], i)) ∨
    (i.arrivals ≠ [] ∧ (∀ ms, timeout = some ms → i.pause ≤ ms) ∧
      readSome size timeout i = (.ok, i.front size, i.advance size)) := by
  have untimed : (i.arrivals = [] ∧ readSome size none i = (.closed, [], i)) ∨
      (i.arrivals ≠ [] ∧ readSome size none i = (.ok, i.front size, i.advance size)) := by
    unfold readSome
    by_cases empty : i.arrivals = []
    · exact .inl ⟨empty, if_pos (List.isEmpty_iff.mpr empty)⟩
    · exact .inr ⟨empty, if_neg (fun none' => empty (List.isEmpty_iff.mp none'))⟩
  cases timeout with
  | none =>
    rcases untimed with closed | ⟨present, read⟩
    · exact .inr (.inl closed)
    · exact .inr (.inr ⟨present, nofun, read⟩)
  | some ms =>
    by_cases late : i.pause > ms
    · exact .inl ⟨ms, rfl, late, if_pos late⟩
    · have same : readSome size (some ms) i = readSome size none i := if_neg late
      rw [same]
      rcases untimed with closed | ⟨present, read⟩
      · exact .inr (.inl closed)
      · refine .inr (.inr ⟨present, fun ms' eq => ?_, read⟩)
        cases eq
        exact Nat.not_lt.mp late

end Read

/-! ## Pauses inside frames -/

section Paced

variable {frames : List Bytes} {position size : Nat} {i i' : Incoming}

/-- The position lies inside one of the frames, at neither end of it. -/
def Inside (frames : List Bytes) (position : Nat) : Prop :=
  ∃ front frame back, frames = front ++ frame :: back ∧ front.flatten.length < position ∧
    position < (front ++ [frame]).flatten.length

/-- No pause inside a frame is longer than the frame timeout; the first piece starts
at the given position. -/
def Paced (frames : List Bytes) : Nat → List Arrival → Prop
  | _, [] => True
  | position, a :: rest =>
    (Inside frames position → a.pause ≤ FRAME_TIMEOUT_MS) ∧
      Paced frames (position + a.chunk.length) rest

theorem Paced.wait (paced : Paced frames position i.arrivals) (ms : Nat) :
    Paced frames position (i.wait ms).arrivals := by
  unfold Incoming.wait
  split
  · exact paced
  · rename_i a rest first
    rw [first] at paced
    exact ⟨fun inside => Nat.le_trans (Nat.sub_le _ _) (paced.1 inside), paced.2⟩

theorem Paced.advance (paced : Paced frames position i.arrivals) (size : Nat) :
    Paced frames (position + (i.front size).length) (i.advance size).arrivals := by
  unfold Incoming.advance Incoming.front
  split
  · exact paced
  · rename_i a rest first
    rw [first] at paced
    have length := congrArg List.length (List.take_append_drop size a.chunk)
    rw [List.length_append] at length
    split
    · rename_i nothing
      rw [nothing, List.length_nil, Nat.add_zero] at length
      rw [length]
      exact paced.2
    · rename_i b more left
      refine ⟨fun _ => Nat.zero_le _, ?_⟩
      rw [left] at length
      rw [Nat.add_assoc, show Arrival.chunk ⟨0, b, more⟩ = b :: more from rfl, length]
      exact paced.2

theorem Paced.pause_le (paced : Paced frames position i.arrivals) (inside : Inside frames position)
    (present : i.arrivals ≠ []) : i.pause ≤ FRAME_TIMEOUT_MS := by
  unfold Incoming.pause
  split
  · rename_i empty
    exact absurd empty present
  · rename_i a rest first
    rw [first] at paced
    exact paced.1 inside

theorem arrivals_ne_nil (some_ : i.bytes ≠ []) : i.arrivals ≠ [] := by
  intro empty
  rw [Incoming.bytes, empty] at some_
  exact some_ rfl

/-- Whatever `read_exact` gives are the next bytes. -/
theorem readExact_some {turns : Nat} {b : Bytes} (read : (readExact turns size i).1 = some b) :
    b.length = size ∧ b ++ (readExact turns size i).2.bytes = i.bytes := by
  induction turns generalizing size i b with
  | zero =>
    cases size with
    | zero =>
      cases read
      exact ⟨rfl, rfl⟩
    | succ size => cases read
  | succ turns ih =>
    cases size with
    | zero =>
      cases read
      exact ⟨rfl, rfl⟩
    | succ size =>
      rw [readExact] at read ⊢
      rcases readSome_cases (size + 1) (some FRAME_TIMEOUT_MS) i with
        ⟨ms, -, -, late⟩ | ⟨-, closed⟩ | ⟨present, -, ok⟩
      · rw [late] at read
        cases read
      · rw [closed] at read
        cases read
      · rw [ok] at read ⊢
        obtain ⟨more, rest, rfl⟩ := Option.map_eq_some_iff.mp read
        obtain ⟨length, bytes⟩ := ih rest
        have short : (i.front (size + 1)).length ≤ size + 1 :=
          (Incoming.front_length present (Nat.succ_pos size)).2
        refine ⟨?_, ?_⟩
        · rw [List.length_append, length]
          omega
        · rw [List.append_assoc, bytes, Incoming.front_advance]

/-- Inside a frame `read_exact` gets its bytes, in whatever pieces they come. -/
theorem readExact_of_paced (turns : Nat) (enough : size ≤ turns)
    (paced : Paced frames position i.arrivals)
    (inside : ∀ q, position ≤ q → q < position + size → Inside frames q)
    (long : size ≤ i.bytes.length) :
    ∃ b, (readExact turns size i).1 = some b ∧
      Paced frames (position + size) (readExact turns size i).2.arrivals := by
  induction turns generalizing size position i with
  | zero =>
    obtain rfl : size = 0 := Nat.le_zero.mp enough
    exact ⟨[], rfl, paced⟩
  | succ turns ih =>
    cases size with
    | zero => exact ⟨[], rfl, paced⟩
    | succ size =>
      have nonempty : i.bytes ≠ [] := by
        intro empty
        rw [empty] at long
        exact Nat.not_succ_le_zero _ long
      have present := arrivals_ne_nil nonempty
      have soon := paced.pause_le (inside position (Nat.le_refl _) (by omega)) present
      rw [readExact]
      rcases readSome_cases (size + 1) (some FRAME_TIMEOUT_MS) i with
        ⟨ms, eq, late, -⟩ | ⟨empty, -⟩ | ⟨-, -, ok⟩
      · cases eq
        exact absurd soon (Nat.not_le.mpr late)
      · exact absurd empty present
      · rw [ok]
        have positive : 0 < (i.front (size + 1)).length :=
          (Incoming.front_length present (Nat.succ_pos size)).1
        have short : (i.front (size + 1)).length ≤ size + 1 :=
          (Incoming.front_length present (Nat.succ_pos size)).2
        have total := congrArg List.length (Incoming.front_advance i (size + 1))
        rw [List.length_append] at total
        have enough' : size + 1 - (i.front (size + 1)).length ≤ turns := by omega
        obtain ⟨b, rest, paced'⟩ := ih enough' (paced.advance (size + 1))
          (fun q low high => inside q (by omega) (by omega)) (by omega)
        refine ⟨i.front (size + 1) ++ b, ?_, ?_⟩
        · dsimp only
          rw [rest]
          rfl
        · have where_ : position + (i.front (size + 1)).length +
              (size + 1 - (i.front (size + 1)).length) = position + (size + 1) := by
            omega
          rw [where_] at paced'
          exact paced'

end Paced

/-! ## One frame -/

section Frame

variable {frames front back : List Bytes} {i : Incoming} {timeout : Option Nat}

def header (type : UInt16) (reserved : UInt16) (length : UInt32) : Bytes :=
  Writer.u16 type ++ (Writer.u16 reserved ++ Writer.u32 length)

theorem parses_header (type reserved : UInt16) (length : UInt32) :
    Parses readHeader (header type reserved length) (type, length) :=
  (parses_u16 type).bind ((parses_u16 reserved).bind
    ((parses_u32 length).bind_pure (f := fun length => (type, length))))

theorem length_header (type reserved : UInt16) (length : UInt32) :
    (header type reserved length).length = HEADER_SIZE := rfl

theorem writeFrame_eq (m : Message) :
    writeFrame m = header m.type.code 0 m.payload.length.toUInt32 ++ m.payload := by
  simp only [writeFrame, header, List.append_assoc]

theorem length_writeFrame (m : Message) :
    (writeFrame m).length = HEADER_SIZE + m.payload.length := by
  rw [writeFrame_eq, List.length_append, length_header]

/-- A position between the first byte of a frame and its end lies inside it. -/
theorem inside_of_between {frame : Bytes} (cut : frames = front ++ frame :: back) {position : Nat}
    (after : front.flatten.length < position)
    (before : position < front.flatten.length + frame.length) : Inside frames position := by
  refine ⟨front, frame, back, cut, after, ?_⟩
  rw [List.flatten_append, List.length_append, List.flatten_singleton]
  exact before

/-- A receive times out only where it has read nothing. -/
theorem recv_timeout (timedOut : (recv timeout i).1 = .timeout) :
    ∃ ms, timeout = some ms ∧ recv timeout i = (.timeout, i.wait ms) := by
  unfold recv at timedOut ⊢
  rcases readSome_cases HEADER_SIZE timeout i with ⟨ms, eq, -, late⟩ | ⟨-, closed⟩ | ⟨-, -, ok⟩
  · rw [late]
    exact ⟨ms, eq, rfl⟩
  · rw [closed] at timedOut
    cases timedOut
  · rw [ok] at timedOut
    dsimp only at timedOut
    split at timedOut
    · cases timedOut
    · split at timedOut
      · cases timedOut
      · split at timedOut
        · cases timedOut
        · split at timedOut
          · cases timedOut
          · cases timedOut

/-- Eight bytes are a header. -/
theorem exists_parses_header {b : Bytes} (eight : b.length = HEADER_SIZE) :
    ∃ fields, Parses readHeader b fields := by
  match b, eight with
  | [_, _, _, _, _, _, _, _], _ => exact ⟨_, fun rest => rfl⟩

/-- The message of a receive is what the next bytes say. -/
theorem recv_ok {type : UInt16} {payload : Bytes}
    (received : (recv timeout i).1 = .ok type payload) :
    ∃ length : UInt32, length.toNat = payload.length ∧ payload.length ≤ MAX_PAYLOAD ∧
      readHeader.run i.bytes = some ((type, length), payload ++ (recv timeout i).2.bytes) := by
  unfold recv at received ⊢
  rcases readSome_cases HEADER_SIZE timeout i with ⟨ms, -, -, late⟩ | ⟨-, closed⟩ | ⟨present, -, ok⟩
  · rw [late] at received
    cases received
  · rw [closed] at received
    cases received
  · rw [ok] at received ⊢
    dsimp only at received ⊢
    have short := (Incoming.front_length present (by decide : 0 < HEADER_SIZE)).2
    split at received
    · cases received
    · rename_i more i₁ first
      have read := readExact_some (congrArg Prod.fst first)
      have left : (readExact HEADER_SIZE (HEADER_SIZE - (i.front HEADER_SIZE).length)
          (i.advance HEADER_SIZE)).2 = i₁ := congrArg Prod.snd first
      rw [left] at read
      have eight : (i.front HEADER_SIZE ++ more).length = HEADER_SIZE := by
        rw [List.length_append, read.1]
        omega
      obtain ⟨⟨type', length⟩, parses⟩ := exists_parses_header eight
      have header := parses.run_self
      rw [header] at received ⊢
      dsimp only at received ⊢
      split at received
      · cases received
      · rename_i small
        rw [if_neg small]
        split at received
        · cases received
        · rename_i payload' i₂ second
          cases received
          have body := readExact_some (congrArg Prod.fst second)
          have rest : (readExact length.toNat length.toNat i₁).2 = i₂ := congrArg Prod.snd second
          rw [rest] at body
          refine ⟨length, body.1.symm, by rw [body.1]; exact Nat.not_lt.mp small, ?_⟩
          have whole : i.bytes = i.front HEADER_SIZE ++ more ++ (payload ++ i₂.bytes) := by
            rw [body.2, List.append_assoc, read.2, Incoming.front_advance]
          rw [whole]
          exact parses.run_eq _

/-- Inside a frame nothing but its end stops a receive. -/
theorem recv_frame (timeout : Option Nat) {m : Message} (fits : m.Fits) {rest : Bytes}
    (stream : i.bytes = writeFrame m ++ rest) (cut : frames = front ++ writeFrame m :: back)
    (paced : Paced frames front.flatten.length i.arrivals) :
    (∃ ms, timeout = some ms ∧ recv timeout i = (.timeout, i.wait ms)) ∨
      ∃ i', recv timeout i = (.ok m.type.code m.payload, i') ∧ i'.bytes = rest ∧
        Paced frames (front ++ [writeFrame m]).flatten.length i'.arrivals := by
  have size : m.payload.length.toUInt32.toNat = m.payload.length := by
    rw [Nat.toUInt32, UInt32.toNat_ofNat']
    exact Nat.mod_eq_of_lt (Nat.lt_of_le_of_lt fits (by decide))
  have frameLength : (writeFrame m).length = HEADER_SIZE + m.payload.length := length_writeFrame m
  have total := congrArg List.length stream
  rw [List.length_append, frameLength] at total
  unfold recv
  rcases readSome_cases HEADER_SIZE timeout i with ⟨ms, eq, -, late⟩ | ⟨empty, -⟩ | ⟨present, -, ok⟩
  · rw [late]
    exact .inl ⟨ms, eq, rfl⟩
  · rw [Incoming.bytes, empty] at total
    exact absurd total (by rw [List.flatMap_nil, List.length_nil]; simp [HEADER_SIZE]; omega)
  · right
    rw [ok]
    dsimp only
    obtain ⟨positive, short⟩ := Incoming.front_length present (by decide : 0 < HEADER_SIZE)
    have pieces := congrArg List.length (Incoming.front_advance i HEADER_SIZE)
    rw [List.length_append] at pieces
    -- the rest of the header
    obtain ⟨more, first, paced₁⟩ := readExact_of_paced HEADER_SIZE
      (Nat.sub_le HEADER_SIZE (i.front HEADER_SIZE).length) (paced.advance HEADER_SIZE)
      (fun q low high => inside_of_between cut (by omega) (by rw [frameLength]; omega)) (by omega)
    have pair : readExact HEADER_SIZE (HEADER_SIZE - (i.front HEADER_SIZE).length)
        (i.advance HEADER_SIZE) = (some more, (readExact HEADER_SIZE
          (HEADER_SIZE - (i.front HEADER_SIZE).length) (i.advance HEADER_SIZE)).2) :=
      Prod.ext first rfl
    have read := readExact_some first
    rw [pair]
    generalize (readExact HEADER_SIZE (HEADER_SIZE - (i.front HEADER_SIZE).length)
      (i.advance HEADER_SIZE)).2 = i₁ at read paced₁
    dsimp only
    have split : i.front HEADER_SIZE ++ more ++ i₁.bytes =
        header m.type.code 0 m.payload.length.toUInt32 ++ (m.payload ++ rest) := by
      rw [List.append_assoc, read.2, Incoming.front_advance, stream, writeFrame_eq,
        List.append_assoc]
    obtain ⟨heads, tails⟩ := List.append_inj split (by
      rw [List.length_append, read.1, length_header]
      omega)
    have here : front.flatten.length + (i.front HEADER_SIZE).length +
        (HEADER_SIZE - (i.front HEADER_SIZE).length) = front.flatten.length + HEADER_SIZE := by
      omega
    rw [here] at paced₁
    rw [heads, (parses_header _ _ _).run_self]
    dsimp only
    rw [if_neg (by rw [size]; exact Nat.not_lt.mpr fits), size]
    -- the payload
    obtain ⟨b, second, paced₂⟩ := readExact_of_paced m.payload.length (Nat.le_refl _) paced₁
      (fun q low high => inside_of_between cut (by simp only [HEADER_SIZE] at low; omega)
        (by rw [frameLength]; omega)) (by rw [tails, List.length_append]; omega)
    have body := readExact_some second
    have pair : readExact m.payload.length m.payload.length i₁ =
        (some b, (readExact m.payload.length m.payload.length i₁).2) := Prod.ext second rfl
    rw [pair]
    generalize (readExact m.payload.length m.payload.length i₁).2 = i₂ at body paced₂
    dsimp only
    rw [tails] at body
    obtain ⟨rfl, left⟩ := List.append_inj body.2 body.1
    refine ⟨i₂, rfl, left, ?_⟩
    rw [List.flatten_append, List.length_append, List.flatten_singleton, frameLength,
      ← Nat.add_assoc]
    exact paced₂

/-! ## What is no frame -/

/-- No message can be read from the bytes: the stream ends inside a frame, or the
header announces too much. -/
def Broken (stream : Bytes) : Prop :=
  ∀ (type : UInt16) (length : UInt32) rest, readHeader.run stream = some ((type, length), rest) →
    MAX_PAYLOAD < length.toNat ∨ rest.length < length.toNat

/-- A header is read from eight bytes. -/
theorem header_of_read {stream rest : Bytes} {fields : UInt16 × UInt32}
    (read : readHeader.run stream = some (fields, rest)) :
    ∃ b, stream = b ++ rest ∧ Parses readHeader b fields := by
  by_cases long : HEADER_SIZE ≤ stream.length
  · obtain ⟨fields', parses⟩ := exists_parses_header (List.length_take_of_le long)
    have eq := parses.run_eq (stream.drop HEADER_SIZE)
    rw [List.take_append_drop, read] at eq
    cases eq
    exact ⟨_, (List.take_append_drop HEADER_SIZE stream).symm, parses⟩
  · have few : stream.length < 8 := Nat.not_le.mp long
    have nothing : readHeader.run stream = none := by
      match stream, few with
      | [], _ | [_], _ | [_, _], _ | [_, _, _], _ | [_, _, _, _], _ | [_, _, _, _, _], _
      | [_, _, _, _, _, _], _ | [_, _, _, _, _, _, _], _ => rfl
    rw [nothing] at read
    cases read

theorem broken_of_cut {m : Message} (fits : m.Fits) {stream missing : Bytes}
    (cut : writeFrame m = stream ++ missing) (short : missing ≠ []) : Broken stream := by
  intro type length rest read
  right
  obtain ⟨b, rfl, parses⟩ := header_of_read read
  have size : m.payload.length.toUInt32.toNat = m.payload.length := by
    rw [Nat.toUInt32, UInt32.toNat_ofNat']
    exact Nat.mod_eq_of_lt (Nat.lt_of_le_of_lt fits (by decide))
  have whole := (parses_header m.type.code 0 m.payload.length.toUInt32).run_eq m.payload
  rw [← writeFrame_eq, cut, List.append_assoc, parses.run_eq] at whole
  simp only [Option.some.injEq, Prod.mk.injEq] at whole
  obtain ⟨⟨-, rfl⟩, payload⟩ := whole
  rw [size]
  have total := congrArg List.length payload
  have positive := List.length_pos_iff.mpr short
  rw [List.length_append] at total
  omega

theorem broken_of_oversize {type reserved : UInt16} {length : UInt32}
    (large : MAX_PAYLOAD < length.toNat) (rest : Bytes) :
    Broken (header type reserved length ++ rest) := by
  intro type' length' rest' read
  rw [(parses_header type reserved length).run_eq] at read
  cases read
  exact .inl large

/-- A stream that ends inside a frame, or goes on with a header that announces too
much; nothing at all is a frame that is cut before its first byte. -/
inductive Malformed : Bytes → Prop where
  | cut {m : Message} {stream missing : Bytes} (fits : m.Fits)
      (cut : writeFrame m = stream ++ missing) (short : missing ≠ []) : Malformed stream
  | oversize {type reserved : UInt16} {length : UInt32} (large : MAX_PAYLOAD < length.toNat)
      (rest : Bytes) : Malformed (header type reserved length ++ rest)

theorem Malformed.broken {stream : Bytes} (malformed : Malformed stream) : Broken stream := by
  cases malformed with
  | cut fits cut short => exact broken_of_cut fits cut short
  | oversize large rest => exact broken_of_oversize large rest

/-- From such a stream a receive never gets a message. -/
theorem recv_broken (timeout : Option Nat) (broken : Broken i.bytes) :
    (recv timeout i).1 = .timeout ∨ (recv timeout i).1 = .closed := by
  cases status : (recv timeout i).1 with
  | timeout => exact .inl rfl
  | closed => exact .inr rfl
  | ok type payload =>
    obtain ⟨length, size, small, read⟩ := recv_ok status
    rcases broken type length _ read with large | short
    · exact absurd small (Nat.not_le.mpr (size ▸ large))
    · rw [List.length_append] at short
      omega

end Frame

/-! ## A whole stream -/

theorem fits_of_sent {ms : List Message} {frames : List Bytes}
    (sent : ms.mapM sendLocked = some frames) :
    (∀ m ∈ ms, m.Fits) ∧ frames = ms.map writeFrame := by
  induction ms generalizing frames with
  | nil =>
    cases sent
    exact ⟨fun m mem => absurd mem List.not_mem_nil, rfl⟩
  | cons m ms ih =>
    rw [List.mapM_cons] at sent
    obtain ⟨frame, one, sent⟩ := Option.bind_eq_some_iff.mp sent
    obtain ⟨rest, others, last⟩ := Option.bind_eq_some_iff.mp sent
    cases last
    obtain ⟨fits, rfl⟩ := ih others
    unfold sendLocked at one
    split at one
    · cases one
    · rename_i small
      cases one
      refine ⟨fun m' mem => ?_, rfl⟩
      rcases List.mem_cons.mp mem with rfl | later
      · exact Nat.not_lt.mp small
      · exact fits m' later

/-- What `recv` says of a message. -/
def Message.received (m : Message) : RecvStatus := .ok m.type.code m.payload

private theorem filter_timeout (statuses : List RecvStatus) :
    (RecvStatus.timeout :: statuses).filter (· ≠ .timeout) = statuses.filter (· ≠ .timeout) := rfl

private theorem filter_ok (m : Message) (statuses : List RecvStatus) :
    (m.received :: statuses).filter (· ≠ .timeout) =
      m.received :: statuses.filter (· ≠ .timeout) := rfl

/-- The calls of `recvAll` from the end of the frames already read. -/
private theorem recvAll_from (done : List Message) {ms : List Message} {tail : Bytes}
    (fits : ∀ m ∈ ms, m.Fits)
    (broken : Broken tail) {i : Incoming} (stream : i.bytes = wire ms ++ tail)
    (paced : Paced ((done ++ ms).map writeFrame) (wire done).length i.arrivals)
    (timeouts : List (Option Nat)) :
    (recvAll timeouts i).filter (· ≠ .timeout) <+: ms.map Message.received ++ [.closed] ∧
      (ms.length < timeouts.count none →
        (recvAll timeouts i).filter (· ≠ .timeout) = ms.map Message.received ++ [.closed]) := by
  induction timeouts generalizing done ms i with
  | nil => exact ⟨List.nil_prefix, fun few => absurd few (Nat.not_lt_zero _)⟩
  | cons timeout timeouts ih =>
    have counted : ∀ ms', timeout = some ms' →
        (timeout :: timeouts).count none = timeouts.count none := by
      rintro ms' rfl
      rfl
    rw [recvAll]
    cases ms with
    | nil =>
      have cut : Broken i.bytes := stream ▸ broken
      rcases recv_broken timeout cut with timedOut | closed
      · obtain ⟨waited, eq, late⟩ := recv_timeout timedOut
        rw [late]
        dsimp only
        rw [filter_timeout, counted waited eq]
        exact ih _ fits ((i.bytes_wait waited).trans stream) (paced.wait waited)
      · have last : recv timeout i = (.closed, (recv timeout i).2) := Prod.ext closed rfl
        rw [last]
        exact ⟨List.prefix_rfl, fun _ => rfl⟩
    | cons m ms =>
      have first : i.bytes = writeFrame m ++ (wire ms ++ tail) := by
        rw [stream, wire, List.flatMap_cons, List.append_assoc, ← wire]
      have frames : (done ++ m :: ms).map writeFrame =
          done.map writeFrame ++ writeFrame m :: ms.map writeFrame := by
        rw [List.map_append, List.map_cons]
      have start : (wire done).length = (done.map writeFrame).flatten.length := by
        rw [wire, List.flatMap_def]
      rw [start] at paced
      rcases recv_frame timeout (fits m List.mem_cons_self) first frames paced with
        ⟨waited, eq, late⟩ | ⟨i', ok, left, paced'⟩
      · rw [late]
        dsimp only
        rw [filter_timeout, counted waited eq]
        rw [← start] at paced
        exact ih _ fits ((i.bytes_wait waited).trans stream) (paced.wait waited)
      · rw [ok]
        dsimp only
        have next : (done.map writeFrame ++ [writeFrame m]).flatten.length =
            (wire (done ++ [m])).length := by
          rw [wire, List.flatMap_def, List.map_append, List.map_singleton]
        rw [next, List.append_cons] at paced'
        have fits' : ∀ m' ∈ ms, m'.Fits := fun m' mem => fits m' (List.mem_cons_of_mem _ mem)
        obtain ⟨shorter, whole⟩ := ih _ fits' left paced'
        rw [← Message.received, filter_ok, List.map_cons, List.cons_append]
        refine ⟨List.cons_prefix_cons.mpr ⟨rfl, shorter⟩, fun enough => ?_⟩
        have fewer : (timeout :: timeouts).count none ≤ timeouts.count none + 1 := by
          rw [List.count_cons]
          split <;> omega
        rw [List.length_cons] at enough
        rw [whole (by omega)]

/-- **Framing survives any fragmentation.** Of a stream of sent frames, arriving in any
pieces and with any pauses that are short inside frames, the calls of `recv` that do
not time out get exactly its messages in order, and then find it closed, also where
it ends inside a frame or announces too much; enough calls without a timeout get
them all. A call that times out has read nothing. -/
theorem recv_exactly {ms : List Message} {frames : List Bytes}
    (sent : ms.mapM sendLocked = some frames) {tail : Bytes} (malformed : Malformed tail)
    {i : Incoming} (stream : i.bytes = frames.flatten ++ tail) (paced : Paced frames 0 i.arrivals)
    (timeouts : List (Option Nat)) :
    ((recvAll timeouts i).filter (· ≠ .timeout) <+: ms.map Message.received ++ [.closed] ∧
      (ms.length < timeouts.count none →
        (recvAll timeouts i).filter (· ≠ .timeout) = ms.map Message.received ++ [.closed])) ∧
    ∀ (timeout : Option Nat) (i : Incoming), (recv timeout i).1 = .timeout →
      timeout ≠ none ∧ (recv timeout i).2.bytes = i.bytes := by
  obtain ⟨fits, rfl⟩ := fits_of_sent sent
  rw [← List.flatMap_def] at stream
  refine ⟨recvAll_from [] fits malformed.broken stream paced timeouts, ?_⟩
  intro timeout i timedOut
  obtain ⟨waited, rfl, late⟩ := recv_timeout timedOut
  rw [late]
  exact ⟨nofun, i.bytes_wait waited⟩

/-- Two messages in three pieces, the second one across a frame's end; the first comes
only after one receive has timed out. -/
def pieces : Incoming where
  arrivals := [⟨20000, 0, [1, 0]⟩, ⟨300, 0, [0, 0, 0, 0, 0, 34]⟩, ⟨14000, 0, [0, 0, 0, 0, 1, 7]⟩]
  ends := 5

theorem recv_exactly_pieces :
    (recvAll [some 10, none, some 20000, none, none] pieces).filter (· ≠ .timeout) =
      [⟨.ok, []⟩, ⟨.notice, [7]⟩].map Message.received ++ [.closed] := by
  have sent : ([⟨.ok, []⟩, ⟨.notice, [7]⟩] : List Message).mapM sendLocked =
      some [[0, 1, 0, 0, 0, 0, 0, 0], [0, 34, 0, 0, 0, 0, 0, 1, 7]] := by
    decide +kernel
  have empty : Malformed [] := .cut (m := ⟨.ok, []⟩) (by decide) rfl (by decide)
  have paced : Paced [[0, 1, 0, 0, 0, 0, 0, 0], [0, 34, 0, 0, 0, 0, 0, 1, 7]] 0
      pieces.arrivals := by
    refine ⟨fun inside => ?_, fun _ => by decide, fun _ => by decide, trivial⟩
    obtain ⟨front, frame, back, -, before, -⟩ := inside
    exact absurd before (Nat.not_lt_zero _)
  exact (recv_exactly sent empty (by decide) paced _).1.2 (by decide)

end SisOp
