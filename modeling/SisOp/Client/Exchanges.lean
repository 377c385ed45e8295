import SisOp.Client.Reconcile
import SisOp.Server.Requests

/-!
# Exchanges on a command connection

`Client::upload`, `download`, `remove_remote` and `list_remote` at one end of a
connection, the loop of `serve_client` at the other, and the bytes on their way
between them. Each end sends frame by frame; opening, reading and writing files
can fail at any point.

Main result: `in_step`, whenever an exchange has returned, both ends are at the
same frame boundary with nothing on its way, or both have given the connection
up.
-/

namespace SisOp.Exchanges

open Lib Std
open Requests (Phase errorReply)

/-! ## The client -/

/-- An exchange, with what the client finds on disk. -/
inductive Call where
  | upload (origin : UInt8) (name : Bytes) (source : Option Source)
  | download (name : Bytes)
  | removeRemote (origin : UInt8) (name : Bytes)
  | listRemote

/-- What kind of reply is waited for. -/
inductive Ask where
  | upload | download | removeRemote | listRemote
  deriving DecidableEq, Repr

/-- Where an exchange is. After `Failed` the connection is shut down, by
`mark_disconnected`. -/
inductive ClientPhase where
  | returned (result : CallResult)
  | awaiting (ask : Ask)
  | receiving (size : Nat) (received : Bytes)
  deriving DecidableEq, Repr

/-- One end: the frames it still has to send, then where it is. -/
structure Client where
  outbox : List Message
  phase : ClientPhase

/-- The client has given the connection up. -/
def Client.failed : Client := ⟨[], .returned .failed⟩

/-- The request of an exchange. `Writer::str` throws on a name that is too long:
nothing was sent, and `transact` takes it for a failure. -/
def Call.start : Call → Client
  | upload origin name source =>
    match sendFile .upload (Writer.u8 origin) name source with
    | none => .failed
    | some (_, .notSent) => ⟨[], .returned .rejected⟩
    | some (frames, _) => ⟨frames, .awaiting .upload⟩
  | download name =>
    match Writer.str name with
    | none => .failed
    | some field => ⟨[⟨.download, field⟩], .awaiting .download⟩
  | removeRemote origin name =>
    match Writer.str name with
    | none => .failed
    | some field => ⟨[⟨.delete, Writer.u8 origin ++ field⟩], .awaiting .removeRemote⟩
  | listRemote => ⟨[⟨.listFiles, []⟩], .awaiting .listRemote⟩

def readFileList : Reader (List FileInfo) := do
  let count ← Reader.u32
  readFileInfo.repeat count.toNat

/-- The frame after the request. -/
def Ask.receive (ask : Ask) (reply : Message) : ClientPhase :=
  match ask with
  | upload => .returned (if reply.type = .ok then .ok else .rejected)
  | removeRemote => .returned (if reply.type = .ok then .ok else .rejected)
  | listRemote =>
    if reply.type ≠ .fileList then .returned .rejected
    else if (readFileList.run reply.payload).isSome then .returned .ok
    else .returned .failed
  | download =>
    if reply.type = .error then .returned .rejected
    else if reply.type ≠ .file then .returned .failed
    else
      match readFileHeader.run reply.payload with
      | none => .returned .failed
      | some (info, _) => .receiving info.size.toNat []

/-- A frame of `recv_file_body`; `io` says whether the temporary file could be
written. -/
def receiveBody (size : Nat) (received : Bytes) (frame : Message) (io : Bool) : ClientPhase :=
  match recvFrame size received frame with
  | .inl more => .receiving size more
  | .inr .ok => .returned (if io then .ok else .rejected)
  | .inr .connectionLost => .returned .failed
  | .inr _ => .returned .rejected

/-- A frame that came in; `none` when the client is not reading. -/
def ClientPhase.receive (phase : ClientPhase) (frame : Message) (io : Bool) : Option ClientPhase :=
  match phase with
  | returned _ => none
  | awaiting ask => some (ask.receive frame)
  | receiving size received => some (receiveBody size received frame io)

/-! ## The server -/

structure Server where
  outbox : List Message
  phase : Phase

/-- `handle_download`, when the file may fail to open or to be read. -/
def handleDownload (source : Option Source) (user token payload : Bytes) : List Message × Phase :=
  match Reader.str.run payload with
  | none => ([], .closed)
  | some (path, _) =>
    if !isValidPath path then ([errorReply (bytes "invalid file name")], .ready user token)
    else
      match sendFile .file [] path source with
      | none => ([], .closed)
      | some (_, .notSent) => ([errorReply (bytes "no such file on the server")], .ready user token)
      | some (frames, _) => (frames, .ready user token)

/-- What the thread of `serve_client` finds when it handles a frame: its role, the
store, the file asked for, and whether its temporary file could be written. -/
structure Surroundings where
  primary : Bool
  replica : Replica
  source : Option Source
  io : Bool

/-- A frame that came in; `none` when the server is not reading. -/
def serverReceive (around : Surroundings) (phase : Phase) (frame : Message) :
    Option (List Message × Phase) :=
  match phase with
  | .ready user token =>
    if !around.primary then
      some ([errorReply (bytes "this server is no longer the primary")], .closed)
    else if frame.type = .download then
      some (handleDownload around.source user token frame.payload)
    else some (Requests.handleRequest around.replica user token frame)
  | .receiving user token info received =>
    some (Requests.receiveFrame user token info received frame around.io)
  | _ => none

/-! ## The connection -/

/-- Both ends, with the bytes on their way to each. -/
structure State where
  client : Client
  server : Server
  toServer : Bytes
  toClient : Bytes

inductive Label where
  | call (call : Call)
  | clientSend
  | clientReceive (io : Bool)
  | serverSend
  | serverReceive (around : Surroundings)
  | finish (replica : Replica) (done : Bool)
  | hangup
  | dropped

section Step

variable (verify : Bytes → Bytes → Bool)

def step (s : State) : Label → Option State
  | .call call =>
    match s.client.phase with
    | .returned .failed => none
    | .returned _ => some { s with client := call.start }
    | _ => none
  | .clientSend =>
    match s.client.outbox with
    | [] => none
    | m :: frames =>
      if m.Fits then
        some { s with
          client := ⟨frames, s.client.phase⟩
          toServer := s.toServer ++ writeFrame m }
      else some { s with client := .failed }
  | .clientReceive io =>
    match s.client.outbox, readFrame.run s.toClient with
    | [], some (some m, rest) =>
      match s.client.phase.receive m io with
      | none => none
      | some phase => some { s with client := ⟨[], phase⟩, toClient := rest }
    | [], some (none, rest) => some { s with client := .failed, toClient := rest }
    | _, _ => none
  | .serverSend =>
    match s.server.outbox with
    | [] => none
    | m :: frames =>
      if m.Fits then
        some { s with
          server := ⟨frames, s.server.phase⟩
          toClient := s.toClient ++ writeFrame m }
      else some { s with server := ⟨[], .closed⟩ }
  | .serverReceive around =>
    match s.server.outbox, readFrame.run s.toServer with
    | [], some (some m, rest) =>
      match serverReceive around s.server.phase m with
      | none => none
      | some (frames, phase) => some { s with server := ⟨frames, phase⟩, toServer := rest }
    | [], some (none, rest) => some { s with server := ⟨[], .closed⟩, toServer := rest }
    | _, _ => none
  | .finish replica done =>
    match s.server.phase with
    | .waiting work =>
      let answered := Requests.answer verify replica work done
      some { s with server := ⟨answered.1, answered.2⟩ }
    | _ => none
  | .hangup =>
    match s.client.phase, s.server.phase with
    | _, .closed => none
    | .returned .failed, _ => some { s with server := ⟨[], .closed⟩ }
    | _, _ => none
  | .dropped =>
    match s.client.phase, s.server.phase with
    | .returned _, _ => none
    | _, .closed => some { s with client := .failed }
    | _, _ => none

end Step

/-- A session just opened. -/
def opened (user token : Bytes) : State :=
  ⟨⟨[], .returned .ok⟩, ⟨[], .ready user token⟩, [], []⟩

/-- The connection is kept: the server is not demoted, which makes it answer with
an Error and close. -/
def Kept (_ : State) : Label → Prop
  | .serverReceive around => around.primary = true
  | _ => True

/-! ## What is on its way -/

/-- The frames of a request. -/
inductive Request : Ask → List Message → Prop
  | upload {payload : Bytes} {origin : UInt8} {info : FileInfo} {rest : Bytes} {body : List Message}
      (readable : Requests.readUpload.run payload = some ((origin, info), rest))
      (whole : BodyRest info.size.toNat [] body) : Request .upload (⟨.upload, payload⟩ :: body)
  | download {payload name rest : Bytes} (readable : Reader.str.run payload = some (name, rest)) :
      Request .download [⟨.download, payload⟩]
  | removeRemote {payload name rest : Bytes} {origin : UInt8}
      (readable : Requests.readDelete.run payload = some ((origin, name), rest)) :
      Request .removeRemote [⟨.delete, payload⟩]
  | listRemote : Request .listRemote [⟨.listFiles, []⟩]

/-- The frames of a reply. -/
inductive Reply : Ask → List Message → Prop
  | upload (m : Message) : Reply .upload [m]
  | removeRemote (m : Message) : Reply .removeRemote [m]
  | listRemote (m : Message)
      (readable : m.type = .fileList → (readFileList.run m.payload).isSome = true) :
      Reply .listRemote [m]
  | refused (m : Message) (error : m.type = .error) : Reply .download [m]
  | file {payload rest : Bytes} {info : FileInfo} {body : List Message}
      (readable : readFileHeader.run payload = some (info, rest))
      (whole : BodyRest info.size.toNat [] body) : Reply .download (⟨.file, payload⟩ :: body)

/-- The change a request can wait to make. -/
inductive Waits (user token : Bytes) : Ask → Requests.Work → Prop
  | upload (name : Bytes) (file : File) : Waits user token .upload (.upload user token name file)
  | removeRemote (path : Bytes) : Waits user token .removeRemote (.delete user token path)

/-- Where the two ends can be, with the frames the server and the client have
still to take in. -/
inductive Stage (user token : Bytes) : ClientPhase → Phase → List Message → List Message → Prop
  | idle {result : CallResult} (alive : result ≠ .failed) :
      Stage user token (.returned result) (.ready user token) [] []
  | asked {ask : Ask} {frames : List Message} (request : Request ask frames) :
      Stage user token (.awaiting ask) (.ready user token) frames []
  | uploading {info : FileInfo} {received : Bytes} {frames : List Message}
      (rest : BodyRest info.size.toNat received frames) :
      Stage user token (.awaiting .upload) (.receiving user token info received) frames []
  | working {ask : Ask} {work : Requests.Work} (waits : Waits user token ask work) :
      Stage user token (.awaiting ask) (.waiting work) [] []
  | answered {ask : Ask} {frames : List Message} (reply : Reply ask frames) :
      Stage user token (.awaiting ask) (.ready user token) [] frames
  | downloading {size : Nat} {received : Bytes} {frames : List Message}
      (rest : BodyRest size received frames) :
      Stage user token (.receiving size received) (.ready user token) [] frames
  | failed : Stage user token (.returned .failed) (.ready user token) [] []
  | closed : Stage user token (.returned .failed) .closed [] []

/-- The frames `up` and `down` are on their way, and all that is to be sent can be
sent. -/
structure OnWay (user token : Bytes) (s : State) (up down : List Message) : Prop where
  toServer : s.toServer = wire up
  toClient : s.toClient = wire down
  fitsUp : ∀ m ∈ up ++ s.client.outbox, m.Fits
  fitsDown : ∀ m ∈ down ++ s.server.outbox, m.Fits
  stage : Stage user token s.client.phase s.server.phase (up ++ s.client.outbox)
    (down ++ s.server.outbox)

def InStep (user token : Bytes) (s : State) : Prop := ∃ up down, OnWay user token s up down

/-! ## Requests and replies -/

theorem fits_errorReply (reason : Bytes) : (errorReply reason).Fits := by
  unfold errorReply Message.Fits MAX_PAYLOAD
  cases written : Writer.str reason with
  | none => exact Nat.zero_le _
  | some enc =>
    have short := length_str_le written
    dsimp only [Option.getD_some]
    omega

/-- What an exchange sends first, and where that leaves the two ends. -/
theorem stage_start (user token : Bytes) (call : Call) :
    Stage user token call.start.phase (.ready user token) call.start.outbox [] ∧
      ∀ m ∈ call.start.outbox, m.Fits := by
  have nothing : ∀ m ∈ ([] : List Message), m.Fits := fun m mem => absurd mem List.not_mem_nil
  have one : ∀ {m : Message}, m.Fits → ∀ m' ∈ [m], m'.Fits := by
    intro m fits m' mem
    rwa [List.mem_singleton.mp mem]
  cases call with
  | upload origin name source =>
    simp only [Call.start]
    cases sent : sendFile .upload (Writer.u8 origin) name source with
    | none => exact ⟨.failed, nothing⟩
    | some both =>
      obtain ⟨frames, result⟩ := both
      cases source with
      | none =>
        cases sent
        exact ⟨.idle nofun, nothing⟩
      | some source =>
        have fits := fits_sendFile (Nat.le_add_left 1 _) sent
        obtain ⟨header, body, written, rfl, whole⟩ := bodyRest_sendFile sent
        have asked : Stage user token (.awaiting .upload) (.ready user token)
            (⟨.upload, Writer.u8 origin ++ header⟩ :: body) [] :=
          .asked (.upload ((parses_u8 origin).bind
            ((parses_fileHeader written).bind_pure (f := fun info => (origin, info)))).run_self
              whole)
        cases result with
        | notSent => exact ⟨.idle nofun, nothing⟩
        | ok | fileError | connectionLost => exact ⟨asked, fits⟩
  | download name =>
    simp only [Call.start]
    cases written : Writer.str name with
    | none => exact ⟨.failed, nothing⟩
    | some field =>
      have short := length_str_le written
      refine ⟨.asked (.download (parses_str written).run_self), one ?_⟩
      unfold Message.Fits MAX_PAYLOAD
      dsimp only
      omega
  | removeRemote origin name =>
    simp only [Call.start]
    cases written : Writer.str name with
    | none => exact ⟨.failed, nothing⟩
    | some field =>
      have short := length_str_le written
      refine ⟨.asked (.removeRemote ((parses_u8 origin).bind
        ((parses_str written).bind_pure (f := fun path => (origin, path)))).run_self), one ?_⟩
      unfold Message.Fits MAX_PAYLOAD
      rw [List.length_append, show (Writer.u8 origin).length = 1 from rfl]
      omega
  | listRemote => exact ⟨.asked .listRemote, one (Nat.zero_le _)⟩

/-- A listing that was written is read back. -/
theorem reply_handleList (r : Replica) (user : Bytes) :
    ∃ m, Requests.handleList r user = some m ∧ m.Fits ∧
      (m.type = .fileList → (readFileList.run m.payload).isSome = true) := by
  have named : ∀ info ∈ r.storage.list user, (writeFileInfo info).isSome = true := by
    intro info mem
    obtain ⟨f, -, valid, -⟩ := Storage.mem_list_iff.mp mem
    have short := length_le_of_isValidPath valid
    obtain ⟨enc, written⟩ := writeFileInfo_isSome info (by unfold MAX_PATH_LENGTH at short; omega)
    rw [written]
    rfl
  obtain ⟨items, written⟩ := Option.isSome_iff_exists.mp (mapM_isSome_iff.mpr named)
  unfold Requests.handleList
  simp only [written]
  refine ⟨_, rfl, ?_, fun type => ?_⟩
  · split
    · exact fits_errorReply _
    · rename_i room
      exact Nat.not_lt.mp room
  · split at type
    · cases type
    · rename_i room
      rw [if_neg room]
      rw [← List.take_append_drop ((r.storage.list user).length.toUInt32).toNat
        (r.storage.list user), List.mapM_append] at written
      obtain ⟨first, firstWritten, written⟩ := Option.bind_eq_some_iff.mp written
      obtain ⟨rest, -, last⟩ := Option.bind_eq_some_iff.mp written
      cases last
      have count : ((r.storage.list user).take
          ((r.storage.list user).length.toUInt32).toNat).length =
            ((r.storage.list user).length.toUInt32).toNat := by
        rw [List.length_take, Nat.toUInt32, UInt32.toNat_ofNat']
        exact Nat.min_eq_left (Nat.mod_le _ _)
      have read := Parses.mapM (r := readFileInfo) (fun _ _ _ => parses_fileInfo) firstWritten
      rw [count] at read
      have parsed : Parses readFileList
          (Writer.u32 (r.storage.list user).length.toUInt32 ++ first.flatten) _ :=
        (parses_u32 _).bind read
      rw [List.flatten_append, ← List.append_assoc, parsed.run_eq]
      rfl

/-- What a download is answered with. -/
theorem reply_handleDownload {payload name rest : Bytes} (source : Option Source)
    (user token : Bytes) (readable : Reader.str.run payload = some (name, rest)) :
    ∃ frames, handleDownload source user token payload = (frames, .ready user token) ∧
      Reply .download frames ∧ ∀ m ∈ frames, m.Fits := by
  have one : ∀ reason, ∀ m ∈ [errorReply reason], m.Fits := by
    intro reason m mem
    rw [List.mem_singleton.mp mem]
    exact fits_errorReply reason
  unfold handleDownload
  rw [readable]
  dsimp only
  split
  · exact ⟨_, rfl, .refused _ rfl, one _⟩
  · rename_i valid
    rw [Bool.not_eq_true', Bool.not_eq_false] at valid
    cases source with
    | none => exact ⟨_, rfl, .refused _ rfl, one _⟩
    | some source =>
      have short := length_le_of_isValidPath valid
      obtain ⟨header, written⟩ := writeFileHeader_isSome ⟨name, source.size, source.mtime, 0⟩
        (by unfold MAX_PATH_LENGTH at short; dsimp only; omega)
      obtain ⟨sent, eq⟩ : ∃ sent, sendFile .file [] name (some source) = some sent := by
        unfold sendFile
        dsimp only
        rw [written]
        exact ⟨_, rfl⟩
      obtain ⟨frames, result⟩ := sent
      have fits := fits_sendFile (Nat.zero_le _) eq
      obtain ⟨header, body, written, rfl, whole⟩ := bodyRest_sendFile eq
      rw [eq]
      have file : Reply .download (⟨.file, [] ++ header⟩ :: body) :=
        .file (parses_fileHeader written).run_self whole
      cases result with
      | notSent => exact ⟨_, rfl, .refused _ rfl, one _⟩
      | ok | fileError | connectionLost => exact ⟨_, rfl, file, fits⟩

/-- When the file in the store is read whole, this is the handler of
`Requests`. -/
theorem handleDownload_of_store {payload path rest : Bytes} (r : Replica) (user token : Bytes)
    (readable : Reader.str.run payload = some (path, rest)) :
    handleDownload ((r.storage.file? user path).map File.source) user token payload =
      (Requests.handleDownload r user path, .ready user token) := by
  unfold handleDownload Requests.handleDownload
  rw [readable]
  dsimp only
  split
  · rfl
  · rename_i valid
    rw [Bool.not_eq_true', Bool.not_eq_false] at valid
    cases r.storage.file? user path with
    | none => rfl
    | some file =>
      have short := length_le_of_isValidPath valid
      obtain ⟨header, written⟩ := writeFileHeader_isSome (file.info path)
        (show path.length ≤ 0xFFFF by unfold MAX_PATH_LENGTH at short; omega)
      dsimp only
      rw [Option.map_some, sendFile_source, written]
      rfl

/-! ## One frame -/

section Frame

variable {user token : Bytes} {client client' : ClientPhase} {server : Phase}
  {up down : List Message} {m : Message}

/-- Between exchanges nothing is on its way. -/
theorem Stage.returned {result : CallResult}
    (stage : Stage user token (.returned result) server up down) : up = [] ∧ down = [] ∧
      (server = .ready user token ∨ result = .failed ∧ server = .closed) := by
  cases stage with
  | idle | failed => exact ⟨rfl, rfl, .inl rfl⟩
  | closed => exact ⟨rfl, rfl, .inr ⟨rfl, rfl⟩⟩

theorem Stage.waiting {work : Requests.Work}
    (stage : Stage user token client (.waiting work) up down) : up = [] ∧ down = [] := by
  cases stage
  exact ⟨rfl, rfl⟩

/-- The server does not give the connection up first. -/
theorem Stage.of_closed (stage : Stage user token client .closed up down) :
    client = .returned .failed := by
  cases stage
  rfl

/-- The client takes in a frame of the reply. -/
theorem Stage.clientReceive (stage : Stage user token client server up (m :: down)) {io : Bool}
    (received : client.receive m io = some client') : Stage user token client' server up down := by
  cases stage with
  | answered reply =>
    cases received
    cases reply with
    | upload | removeRemote =>
      rw [Ask.receive]
      split <;> exact .idle nofun
    | listRemote m readable =>
      rw [Ask.receive]
      split
      · exact .idle nofun
      · rename_i listed
        rw [if_pos (readable (Decidable.not_not.mp listed))]
        exact .idle nofun
    | refused m error =>
      rw [Ask.receive]
      rw [if_pos error]
      exact .idle nofun
    | file readable whole =>
      rw [Ask.receive]
      rw [if_neg nofun, if_neg (by simp), readable]
      exact .downloading whole
  | downloading rest =>
    cases received
    unfold receiveBody
    rcases rest.head with ⟨more, frame, rest⟩ | ⟨ok | aborted, rfl⟩
    · rw [frame]
      exact .downloading rest
    · rw [ok]
      cases io <;> exact .idle nofun
    · rw [aborted]
      exact .idle nofun

/-- The server takes in a frame of the request. -/
theorem Stage.serverReceive (stage : Stage user token client server (m :: up) down)
    {around : Surroundings} (primary : around.primary = true) {frames : List Message} {next : Phase}
    (received : Exchanges.serverReceive around server m = some (frames, next)) :
    Stage user token client next up (down ++ frames) ∧ ∀ m ∈ frames, m.Fits := by
  have nothing : ∀ m ∈ ([] : List Message), m.Fits := fun m mem => absurd mem List.not_mem_nil
  have refusal : ∀ reason, ∀ m ∈ [errorReply reason], m.Fits := by
    intro reason m mem
    rw [List.mem_singleton.mp mem]
    exact fits_errorReply reason
  cases stage with
  | asked request =>
    simp only [Exchanges.serverReceive, primary, Bool.not_true, Bool.false_eq_true, if_false]
      at received
    cases request with
    | upload readable whole =>
      simp only [reduceCtorEq, if_false, Requests.handleRequest, readable, Option.some.injEq,
        Prod.mk.injEq] at received
      obtain ⟨rfl, rfl⟩ := received
      exact ⟨.uploading whole, nothing⟩
    | download readable =>
      obtain ⟨reply, eq, complete, fits⟩ :=
        reply_handleDownload around.source user token readable
      simp only [if_true, eq, Option.some.injEq, Prod.mk.injEq] at received
      obtain ⟨rfl, rfl⟩ := received
      exact ⟨.answered complete, fits⟩
    | removeRemote readable =>
      simp only [reduceCtorEq, if_false, Requests.handleRequest, readable] at received
      split at received
      · cases received
        exact ⟨.answered (.removeRemote _), refusal _⟩
      · cases received
        exact ⟨.working (.removeRemote _), nothing⟩
    | listRemote =>
      obtain ⟨reply, eq, fits, readable⟩ := reply_handleList around.replica user
      simp only [reduceCtorEq, if_false, Requests.handleRequest, eq, Option.some.injEq,
        Prod.mk.injEq] at received
      obtain ⟨rfl, rfl⟩ := received
      refine ⟨.answered (.listRemote reply readable), fun m mem => ?_⟩
      rwa [List.mem_singleton.mp mem]
  | @uploading info received' _ rest =>
    simp only [Exchanges.serverReceive, Option.some.injEq] at received
    unfold Requests.receiveFrame at received
    rcases rest.head with ⟨more, frame, rest⟩ | ⟨ok | aborted, rfl⟩
    · rw [frame] at received
      cases received
      exact ⟨.uploading rest, nothing⟩
    · rw [ok] at received
      dsimp only at received
      split at received
      · split at received
        · cases received
          exact ⟨.answered (.upload _), refusal _⟩
        · split at received
          · cases received
            exact ⟨.answered (.upload _), refusal _⟩
          · cases received
            exact ⟨.working (.upload _ _), nothing⟩
      · cases received
        exact ⟨.answered (.upload _), refusal _⟩
    · rw [aborted] at received
      cases received
      exact ⟨.answered (.upload _), refusal _⟩

/-- The server has made the change, or could not. -/
theorem Stage.finish {work : Requests.Work}
    (stage : Stage user token client (.waiting work) up down)
    (verify : Bytes → Bytes → Bool) (replica : Replica) (done : Bool) :
    Stage user token client (Requests.answer verify replica work done).2 up
        (down ++ (Requests.answer verify replica work done).1) ∧
      ∀ m ∈ (Requests.answer verify replica work done).1, m.Fits := by
  have one : ∀ {m : Message}, m.Fits → ∀ m' ∈ [m], m'.Fits := by
    intro m fits m' mem
    rwa [List.mem_singleton.mp mem]
  cases stage with
  | working waits =>
    cases waits with
    | upload name file =>
      cases done
      · exact ⟨.answered (.upload _), one (fits_errorReply _)⟩
      · exact ⟨.answered (.upload _), one (Nat.zero_le _)⟩
    | removeRemote path =>
      cases done
      · exact ⟨.answered (.removeRemote _), one (fits_errorReply _)⟩
      · exact ⟨.answered (.removeRemote _), one (Nat.zero_le _)⟩

end Frame

/-! ## Runs -/

section Runs

variable {user token : Bytes} {s s' : State}

theorem InStep.step {verify : Bytes → Bytes → Bool} {label : Label} (inStep : InStep user token s)
    (kept : Kept s label) (stepped : Exchanges.step verify s label = some s') :
    InStep user token s' := by
  obtain ⟨up, down, way⟩ := inStep
  cases label with
  | call call =>
    simp only [Exchanges.step] at stepped
    split at stepped
    · cases stepped
    · rename_i result alive phase
      cases stepped
      have stage := way.stage
      rw [phase] at stage
      obtain ⟨req, rep, ready | ⟨rfl, -⟩⟩ := stage.returned
      · obtain ⟨rfl, -⟩ := List.append_eq_nil_iff.mp req
        obtain ⟨rfl, none⟩ := List.append_eq_nil_iff.mp rep
        obtain ⟨stage, fits⟩ := stage_start user token call
        refine ⟨[], [], way.toServer, way.toClient, fits, way.fitsDown, ?_⟩
        rw [ready, none]
        exact stage
      · exact absurd rfl alive
    · cases stepped
  | clientSend =>
    simp only [Exchanges.step] at stepped
    split at stepped
    · cases stepped
    · rename_i m frames outbox
      have all := way.fitsUp
      rw [outbox] at all
      rw [if_pos (all m (List.mem_append_right _ List.mem_cons_self))] at stepped
      cases stepped
      have stage := way.stage
      rw [outbox, List.append_cons] at stage
      rw [List.append_cons] at all
      refine ⟨up ++ [m], down, ?_, way.toClient, all, way.fitsDown, stage⟩
      rw [wire_concat, ← way.toServer]
  | clientReceive io =>
    simp only [Exchanges.step] at stepped
    split at stepped
    · rename_i m rest outbox read
      split at stepped
      · cases stepped
      · rename_i phase received
        cases stepped
        have fits := way.fitsDown
        rw [way.toClient] at read
        obtain ⟨first, down, rfl, ⟨⟩, rfl⟩ :=
          frames_of_read (fun m mem => fits m (List.mem_append_left _ mem)) read
        have stage := way.stage.clientReceive received
        rw [outbox] at stage
        have up' := way.fitsUp
        rw [outbox] at up'
        exact ⟨up, down, way.toServer, rfl, up',
          fun m mem => fits m (List.mem_cons_of_mem _ mem), stage⟩
    · rename_i rest outbox read
      rw [way.toClient] at read
      obtain ⟨_, _, _, ⟨⟩, _⟩ :=
        frames_of_read (fun m mem => way.fitsDown m (List.mem_append_left _ mem)) read
    · cases stepped
  | serverSend =>
    simp only [Exchanges.step] at stepped
    split at stepped
    · cases stepped
    · rename_i m frames outbox
      have all := way.fitsDown
      rw [outbox] at all
      rw [if_pos (all m (List.mem_append_right _ List.mem_cons_self))] at stepped
      cases stepped
      have stage := way.stage
      rw [outbox, List.append_cons] at stage
      rw [List.append_cons] at all
      refine ⟨up, down ++ [m], way.toServer, ?_, way.fitsUp, all, stage⟩
      rw [wire_concat, ← way.toClient]
  | serverReceive around =>
    simp only [Exchanges.step] at stepped
    split at stepped
    · rename_i m rest outbox read
      split at stepped
      · cases stepped
      · rename_i frames phase received
        cases stepped
        have fits := way.fitsUp
        rw [way.toServer] at read
        obtain ⟨first, up, rfl, ⟨⟩, rfl⟩ :=
          frames_of_read (fun m mem => fits m (List.mem_append_left _ mem)) read
        obtain ⟨stage, fits'⟩ := way.stage.serverReceive kept received
        have down' := way.fitsDown
        rw [outbox, List.append_nil] at stage down'
        refine ⟨up, down, rfl, way.toClient, fun m mem => fits m (List.mem_cons_of_mem _ mem),
          fun m mem => (List.mem_append.mp mem).elim (down' m) (fits' m), stage⟩
    · rename_i rest outbox read
      rw [way.toServer] at read
      obtain ⟨_, _, _, ⟨⟩, _⟩ :=
        frames_of_read (fun m mem => way.fitsUp m (List.mem_append_left _ mem)) read
    · cases stepped
  | finish replica done =>
    simp only [Exchanges.step] at stepped
    split at stepped
    · rename_i work phase
      cases stepped
      have stage := way.stage
      rw [phase] at stage
      obtain ⟨rfl, none⟩ := List.append_eq_nil_iff.mp stage.waiting.2
      obtain ⟨stage, fits⟩ := stage.finish verify replica done
      rw [none] at stage
      exact ⟨up, [], way.toServer, way.toClient, way.fitsUp, fits, stage⟩
    · cases stepped
  | hangup =>
    simp only [Exchanges.step] at stepped
    split at stepped
    · cases stepped
    · rename_i phase _
      cases stepped
      have stage := way.stage
      rw [phase] at stage
      obtain ⟨req, rep, -⟩ := stage.returned
      obtain ⟨rfl, none⟩ := List.append_eq_nil_iff.mp req
      obtain ⟨rfl, -⟩ := List.append_eq_nil_iff.mp rep
      refine ⟨[], [], way.toServer, way.toClient, way.fitsUp,
        fun m mem => absurd mem List.not_mem_nil, ?_⟩
      rw [phase, none]
      exact .closed
    · cases stepped
  | dropped =>
    simp only [Exchanges.step] at stepped
    split at stepped
    · cases stepped
    · rename_i phase alive
      have stage := way.stage
      rw [phase] at stage
      exact absurd stage.of_closed (alive _)
    · cases stepped

/-- Both ends are at a frame boundary: nothing is on its way, nothing is left to
send, and the server reads the next request. -/
structure Aligned (user token : Bytes) (s : State) : Prop where
  toServer : s.toServer = []
  toClient : s.toClient = []
  clientSent : s.client.outbox = []
  serverSent : s.server.outbox = []
  reading : s.server.phase = .ready user token

/-- The client has shut the connection down, and the server has ended it or can
only find it closed. -/
structure Ended (verify : Bytes → Bytes → Bool) (s : State) : Prop where
  client : s.client.phase = .returned .failed
  server : s.server.phase = .closed ∨
    (∃ s', Exchanges.step verify s .hangup = some s') ∧
      ∀ label s', Exchanges.step verify s label = some s' → s'.server.phase = .closed

/-- Nothing more comes of a connection the client has shut down. -/
theorem InStep.ended {verify : Bytes → Bytes → Bool} (inStep : InStep user token s)
    (failed : s.client.phase = .returned .failed) : Ended verify s := by
  refine ⟨failed, ?_⟩
  obtain ⟨up, down, way⟩ := inStep
  have stage := way.stage
  rw [failed] at stage
  obtain ⟨req, rep, ready | ⟨-, closed⟩⟩ := stage.returned
  · obtain ⟨rfl, sent⟩ := List.append_eq_nil_iff.mp req
    obtain ⟨rfl, sent'⟩ := List.append_eq_nil_iff.mp rep
    have silent := way.toServer
    have quiet := way.toClient
    rw [wire_nil] at silent quiet
    refine .inr ⟨⟨_, by simp only [Exchanges.step, failed, ready]; rfl⟩, fun label s' stepped => ?_⟩
    cases label with
    | call | dropped => simp [Exchanges.step, failed] at stepped
    | clientSend => simp [Exchanges.step, sent] at stepped
    | serverSend => simp [Exchanges.step, sent'] at stepped
    | clientReceive => simp [Exchanges.step, quiet, readFrame_nil] at stepped
    | serverReceive => simp [Exchanges.step, silent, readFrame_nil] at stepped
    | finish => simp [Exchanges.step, ready] at stepped
    | hangup =>
      simp only [Exchanges.step, failed, ready, Option.some.injEq] at stepped
      rw [← stepped]
  · exact .inl closed

theorem inStep_opened (user token : Bytes) : InStep user token (opened user token) := by
  have nothing : ∀ m ∈ ([] : List Message), m.Fits := fun m mem => absurd mem List.not_mem_nil
  exact ⟨[], [], rfl, rfl, nothing, nothing, .idle nofun⟩

/-- **Client and server stay in step.** Any exchanges, with any names, contents
and failures of opening, reading and writing, on a connection that is kept and
without timeouts: when an exchange has returned, either both ends have given the
connection up, or every frame of the request and of the reply has been taken in
and the next request is read from a frame boundary. The server never gives it up
first. -/
theorem in_step {verify : Bytes → Bytes → Bool} {labels : List Label}
    (kept : Meets (Exchanges.step verify) Kept (opened user token) labels)
    (ran : run (Exchanges.step verify) (opened user token) labels = some s) :
    (∀ result, s.client.phase = .returned result → Aligned user token s ∨ Ended verify s) ∧
      (s.server.phase = .closed → s.client.phase = .returned .failed) := by
  have inStep : InStep user token s :=
    run_invariant (I := InStep user token) (fun _ _ _ => InStep.step) (inStep_opened user token)
      kept ran
  refine ⟨fun result phase => ?_, fun closed => ?_⟩
  · by_cases failed : result = .failed
    · exact .inr (inStep.ended (failed ▸ phase))
    · obtain ⟨up, down, way⟩ := inStep
      have stage := way.stage
      rw [phase] at stage
      obtain ⟨req, rep, ready | ⟨failed', -⟩⟩ := stage.returned
      · obtain ⟨rfl, sent⟩ := List.append_eq_nil_iff.mp req
        obtain ⟨rfl, sent'⟩ := List.append_eq_nil_iff.mp rep
        exact .inl ⟨way.toServer, way.toClient, sent, sent', ready⟩
      · exact absurd failed' failed
  · obtain ⟨up, down, way⟩ := inStep
    have stage := way.stage
    rw [closed] at stage
    exact stage.of_closed

/-- An exchange is never stuck: until it returns, one of the two ends can go on. -/
theorem InStep.progress {verify : Bytes → Bytes → Bool} (inStep : InStep user token s)
    (busy : ∀ result, s.client.phase ≠ .returned result) (around : Surroundings) :
    ∃ label ∈ [Label.clientSend, .clientReceive true, .serverSend, .serverReceive around,
      .finish around.replica true], (Exchanges.step verify s label).isSome = true := by
  obtain ⟨up, down, way⟩ := inStep
  cases sending : s.client.outbox with
  | cons m frames =>
    refine ⟨.clientSend, by simp, ?_⟩
    simp only [Exchanges.step, sending]
    split <;> rfl
  | nil =>
    cases answering : s.server.outbox with
    | cons m frames =>
      refine ⟨.serverSend, by simp, ?_⟩
      simp only [Exchanges.step, answering]
      split <;> rfl
    | nil =>
      have stage := way.stage
      rw [sending, answering, List.append_nil, List.append_nil] at stage
      -- a frame on its way to an end that reads is taken in
      have clientReads : ∀ m rest phase, down = m :: rest →
          s.client.phase.receive m true = some phase →
            (Exchanges.step verify s (.clientReceive true)).isSome = true := by
        intro m rest phase next received
        have read := readFrame_wire (way.fitsDown m (by simp [next])) rest
        rw [← next, ← way.toClient] at read
        simp only [Exchanges.step, sending, read, received, Option.isSome_some]
      have serverReads : ∀ m rest frames phase, up = m :: rest →
          Exchanges.serverReceive around s.server.phase m = some (frames, phase) →
            (Exchanges.step verify s (.serverReceive around)).isSome = true := by
        intro m rest frames phase next received
        have read := readFrame_wire (way.fitsUp m (by simp [next])) rest
        rw [← next, ← way.toServer] at read
        simp only [Exchanges.step, answering, read, received, Option.isSome_some]
      generalize clientIs : s.client.phase = client at stage busy clientReads
      generalize serverIs : s.server.phase = server at stage serverReads
      cases stage with
      | idle | failed | closed => exact absurd rfl (busy _)
      | asked request =>
        obtain ⟨m, rest, next⟩ : ∃ m rest, up = m :: rest := by
          cases request <;> exact ⟨_, _, rfl⟩
        obtain ⟨⟨frames, phase⟩, received⟩ : ∃ both, Exchanges.serverReceive around
            (.ready user token) m = some both := by
          unfold Exchanges.serverReceive
          dsimp only
          split
          · exact ⟨_, rfl⟩
          · split <;> exact ⟨_, rfl⟩
        exact ⟨.serverReceive around, by simp, serverReads m rest frames phase next received⟩
      | uploading rest =>
        obtain ⟨m, rest, next⟩ : ∃ m rest, up = m :: rest := by
          cases rest <;> exact ⟨_, _, rfl⟩
        exact ⟨.serverReceive around, by simp, serverReads m rest _ _ next rfl⟩
      | working =>
        refine ⟨.finish around.replica true, by simp, ?_⟩
        simp only [Exchanges.step, serverIs, Option.isSome_some]
      | answered reply =>
        obtain ⟨m, rest, next⟩ : ∃ m rest, down = m :: rest := by
          cases reply <;> exact ⟨_, _, rfl⟩
        exact ⟨.clientReceive true, by simp, clientReads m rest _ next rfl⟩
      | downloading rest =>
        obtain ⟨m, rest, next⟩ : ∃ m rest, down = m :: rest := by
          cases rest <;> exact ⟨_, _, rfl⟩
        exact ⟨.clientReceive true, by simp, clientReads m rest _ next rfl⟩

end Runs

/-! ## One upload -/

section Examples

/-- An upload whose source breaks off after the first chunk is announced. -/
def breaksOff : Source := ⟨3, 5, fun _ _ => none⟩

private def calm : Surroundings := ⟨true, ⟨∅, ∅⟩, none, true⟩

private def abortedUpload : List Label :=
  [.call (.upload 1 (bytes "x") (some breaksOff)), .clientSend, .clientSend,
    .serverReceive calm, .serverReceive calm, .serverSend, .clientReceive true]

/-- The body is aborted, the server refuses the upload, and both ends are ready
for the next exchange. -/
theorem in_step_of_abort :
    ∃ s, run (step fun _ _ => false) (opened (bytes "alice") []) abortedUpload = some s ∧
      s.client.phase = .returned .rejected ∧
      (Aligned (bytes "alice") [] s ∨ Ended (fun _ _ => false) s) := by
  have reached : (run (step fun _ _ => false) (opened (bytes "alice") []) abortedUpload).any
      (fun s => decide (s.client.phase = .returned .rejected)) = true := by decide +kernel
  obtain ⟨s, ran, phase⟩ := (Option.any_eq_true _ _).mp reached
  have phase := of_decide_eq_true phase
  have kept : Meets (step fun _ _ => false) Kept (opened (bytes "alice") []) abortedUpload := by
    refine Meets.of_forall (fun label mem s => ?_) _
    simp only [abortedUpload, List.mem_cons, List.not_mem_nil, or_false] at mem
    rcases mem with rfl | rfl | rfl | rfl | rfl | rfl | rfl <;> trivial
  exact ⟨s, ran, phase, (in_step kept ran).1 _ phase⟩

end Examples

end SisOp.Exchanges
