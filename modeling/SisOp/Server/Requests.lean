import SisOp.Cluster.Replica
import SisOp.Cluster.State
import SisOp.Lib.Run
import Mathlib.Logic.Function.Basic

/-!
# Serving clients while the cluster changes

The thread of each client connection (`serve_client`, `handle_request` and the
handlers of `server/server.cpp`) beside the threads that serve Coordinator and
ReplicaAttach messages. The role is read when a request arrives; its change is
made later, once the body is in, the password hashed and the write mutex free.

Main result: `applied_as_primary`, a client's change is applied and confirmed
by a primary only, in every run that demotes the server between requests.
-/

namespace SisOp.Requests

open Lib Std Function

def MIN_PASSWORD_LENGTH : Nat := 6
def MAX_PASSWORD_LENGTH : Nat := 256
def MAX_SESSIONS_PER_USER : Nat := 2

/-- A record `make_record` can return. -/
abbrev Record := { record : Bytes // isValidRecord record = true }

/-- A change a client asked for, with what its handler keeps. -/
inductive Work where
  | upload (user token name : Bytes) (file : File)
  | delete (user token path : Bytes)
  | create (user password : Bytes) (record : Record)

def Work.change : Work → Change
  | upload user _ name file => .put user name file
  | delete user _ path => .delete user path
  | create user _ record => .account user record.val

/-- Where the thread of a connection is. -/
inductive Phase where
  | closed
  | authenticating (user password : Bytes)
  | admitted (user : Bytes)
  | ready (user token : Bytes)
  | receiving (user token : Bytes) (info : FileInfo) (received : Bytes)
  | waiting (work : Work)
  | holding (work : Work)
  | replicating (work : Work) (done : Bool)

/-- The role was read and the change is still to be made. -/
def Phase.pending : Phase → Bool
  | authenticating .. | receiving .. | waiting _ | holding _ => true
  | _ => false

/-- The change is made and still to be answered. -/
def Phase.isReplicating : Phase → Bool
  | replicating .. => true
  | _ => false

/-- One server with its connections. `writer` is the holder of the write mutex,
`some none` when it is a thread of the cluster. The last two fields are
history: the client changes made, with the role at that moment, and those
answered with `Ok` or `LoginOk`. -/
structure State (σ L : Type) where
  cluster : Cluster L
  replica : Replica
  writer : Option (Option σ)
  phase : σ → Phase
  sessions : List (Bytes × Bytes)
  replies : List (σ × Message)
  applied : List (σ × Change × Role)
  confirmed : List (σ × Change)

/-! ## Handlers up to the point where they wait -/

/-- The payload of `send_error`. -/
def errorReply (reason : Bytes) : Message := ⟨.error, (Writer.str reason).getD []⟩

/-- `send_redirect`; nothing is sent when the writer throws. -/
def sendRedirect {L : Type} (c : Cluster L) : List Message :=
  let host := if c.primaryKnown then c.primary.host else []
  let port := if c.primaryKnown then c.primary.port else 0
  match Writer.str host with
  | some field => [⟨.redirect, field ++ Writer.u16 port⟩]
  | none => []

/-- The payload of `LoginOk`. -/
def welcome {L : Type} (c : Cluster L) (token : Bytes) : Option Bytes := do
  let token ← Writer.str token
  let servers ← writeServers c.members
  pure (token ++ servers)

/-- `serve_client` up to `authenticate`. -/
def serveClient {L : Type} (c : Cluster L) (login : Bytes) : List Message × Phase :=
  match readStrs.run login with
  | none => ([], .closed)
  | some ((user, password), _) =>
    if c.role ≠ .primary then (sendRedirect c, .closed)
    else if !isValidUsername user then
      ([errorReply (bytes
        "invalid username (use letters, digits, '_' or '-', up to 32 characters)")], .closed)
    else if password.length < MIN_PASSWORD_LENGTH || password.length > MAX_PASSWORD_LENGTH then
      ([errorReply (bytes "passwords must have between 6 and 256 characters")], .closed)
    else ([], .authenticating user password)

/-- The check of a password against the stored record. `verify` is the PBKDF2
comparison. -/
def checkPassword (verify : Bytes → Bytes → Bool) (accounts : Accounts) (user password : Bytes) :
    List Message × Phase :=
  match accounts.get user with
  | none => ([errorReply (bytes "the server could not create the account")], .closed)
  | some record =>
    if verify record password then ([], .admitted user)
    else ([errorReply (bytes "wrong password")], .closed)

/-- `authenticate` up to the write mutex; `made` is the outcome of `make_record`. -/
def authenticate (verify : Bytes → Bytes → Bool) (accounts : Accounts) (user password : Bytes)
    (made : Option Record) : List Message × Phase :=
  match accounts.get user, made with
  | none, some record => ([], .waiting (.create user password record))
  | _, _ => checkPassword verify accounts user password

def readUpload : Reader (UInt8 × FileInfo) := do
  let origin ← Reader.u8
  let info ← readFileHeader
  pure (origin, info)

def readDelete : Reader (UInt8 × Bytes) := do
  let origin ← Reader.u8
  let path ← Reader.str
  pure (origin, path)

def handleList (r : Replica) (user : Bytes) : Option Message := do
  let files := r.storage.list user
  let items ← files.mapM writeFileInfo
  let payload := Writer.u32 files.length.toUInt32 ++ items.flatten
  pure (if payload.length > MAX_PAYLOAD then errorReply (bytes "too many files to list")
    else ⟨.fileList, payload⟩)

def handleDownload (r : Replica) (user path : Bytes) : List Message :=
  if !isValidPath path then [errorReply (bytes "invalid file name")]
  else
    match r.storage.file? user path with
    | none => [errorReply (bytes "no such file on the server")]
    | some file => ⟨.file, (writeFileHeader (file.info path)).getD []⟩ :: bodyFrames file.content

/-- `handle_request`; a malformed request closes the connection. -/
def handleRequest (r : Replica) (user token : Bytes) (msg : Message) : List Message × Phase :=
  match msg.type with
  | .ping => ([⟨.pong, []⟩], .ready user token)
  | .logout => ([⟨.ok, []⟩], .closed)
  | .listFiles =>
    match handleList r user with
    | none => ([], .closed)
    | some reply => ([reply], .ready user token)
  | .upload =>
    match readUpload.run msg.payload with
    | none => ([], .closed)
    | some ((_, info), _) => ([], .receiving user token info [])
  | .download =>
    match Reader.str.run msg.payload with
    | none => ([], .closed)
    | some (path, _) => (handleDownload r user path, .ready user token)
  | .delete =>
    match readDelete.run msg.payload with
    | none => ([], .closed)
    | some ((_, path), _) =>
      if !isValidPath path then ([errorReply (bytes "invalid file name")], .ready user token)
      else ([], .waiting (.delete user token path))
  | other => ([errorReply (bytes "unexpected " ++ msgName other)], .closed)

/-- One frame of an upload body; `io` says whether the temporary file can be
written. -/
def receiveFrame (user token : Bytes) (info : FileInfo) (received : Bytes) (frame : Message)
    (io : Bool) : List Message × Phase :=
  match recvFrame info.size.toNat received frame with
  | .inl more => ([], .receiving user token info more)
  | .inr .ok =>
    if small : received.length < 2 ^ 63 then
      if !io then ([errorReply (bytes "the upload was not completed")], .ready user token)
      else if !isValidPath info.name then
        ([errorReply (bytes "invalid file name")], .ready user token)
      else ([], .waiting (.upload user token info.name ⟨received, info.mtimeNs, small⟩))
    else ([errorReply (bytes "the upload was not completed")], .ready user token)
  | .inr .connectionLost => ([], .closed)
  | .inr _ => ([errorReply (bytes "the upload was not completed")], .ready user token)

/-! ## The change itself -/

/-- `commit`, `remove` or `create`; `io` says whether the disk accepts it. -/
def perform (r : Replica) (work : Work) (io : Bool) : Replica × Bool :=
  if !io then (r, false)
  else
    match work with
    | .upload user _ name file =>
      let committed := r.storage.commit user name file
      ({ r with storage := committed.1 }, committed.2)
    | .delete user _ path =>
      let removed := r.storage.remove user path
      ({ r with storage := removed.1 }, removed.2)
    | .create user _ record =>
      let created := r.accounts.create user record.val record.property
      ({ r with accounts := created.1 }, created.2)

/-- What the handler answers once the write mutex is released. -/
def answer (verify : Bytes → Bytes → Bool) (r : Replica) (work : Work) (done : Bool) :
    List Message × Phase :=
  match work with
  | .upload user token name _ =>
    if done then ([⟨.ok, []⟩], .ready user token)
    else ([errorReply (bytes "the server could not store " ++ name ++
      bytes " (a file and a folder can't have the same name)")], .ready user token)
  | .delete user token _ =>
    if done then ([⟨.ok, []⟩], .ready user token)
    else ([errorReply (bytes "no such file on the server")], .ready user token)
  | .create user password _ =>
    if done then ([], .admitted user) else checkPassword verify r.accounts user password

/-! ## Steps -/

inductive Label (σ L : Type) where
  | login (i : σ) (payload : Bytes)
  | authenticate (i : σ) (made : Option Record)
  | openSession (i : σ) (token : Bytes) (io : Bool)
  | request (i : σ) (msg : Message)
  | frame (i : σ) (frame : Message) (io : Bool)
  | lock (i : σ)
  | apply (i : σ) (io : Bool)
  | finish (i : σ)
  | hangup (i : σ)
  | coordinator (leader : ServerAddress)
  | replicaAttach (conn : L) (primary : ServerAddress) (members : List ServerAddress)
  | becomePrimary
  | clusterLock
  | clusterUnlock
  | replicated (change : Change)

section Step

variable {σ L : Type} [DecidableEq σ] (verify : Bytes → Bytes → Bool)

/-- The thread of `i` sends its replies and goes on. -/
def State.move (s : State σ L) (i : σ) (next : List Message × Phase) : State σ L :=
  { s with phase := update s.phase i next.2, replies := s.replies ++ next.1.map fun m => (i, m) }

/-- The session whose token the thread of `i` holds is closed with it. -/
def State.closeSession (s : State σ L) (i : σ) (token : Bytes) : State σ L :=
  match s.phase i with
  | .closed => { s with sessions := s.sessions.filter fun session => session.1 ≠ token }
  | _ => s

def step (s : State σ L) : Label σ L → Option (State σ L)
  | .login i payload =>
    match s.phase i with
    | .closed => some (s.move i (serveClient s.cluster payload))
    | _ => none
  | .authenticate i made =>
    match s.phase i with
    | .authenticating user password =>
      some (s.move i (Requests.authenticate verify s.replica.accounts user password made))
    | _ => none
  | .openSession i token io =>
    match s.phase i with
    | .admitted user =>
      if !io then some (s.move i ([errorReply (bytes
        "the server could not create the user's directory")], .closed))
      else
        let s := { s with
          replica := { s.replica with storage := s.replica.storage.ensureUser user } }
        let open_ := (s.sessions.filter fun session => session.2 = user).length
        if open_ ≥ MAX_SESSIONS_PER_USER || token.isEmpty || s.sessions.any (·.1 = token) then
          some (s.move i ([errorReply (bytes "this user already has 2 active sessions")], .closed))
        else
          let s := { s with sessions := (token, user) :: s.sessions }
          match welcome s.cluster token with
          | some payload => some (s.move i ([⟨.loginOk, payload⟩], .ready user token))
          | none => some (s.move i ([], .closed))
    | _ => none
  | .request i msg =>
    match s.phase i with
    | .ready user token =>
      if s.cluster.role ≠ .primary then
        some ((s.move i ([errorReply (bytes "this server is no longer the primary")],
          .closed)).closeSession i token)
      else some ((s.move i (handleRequest s.replica user token msg)).closeSession i token)
    | _ => none
  | .frame i frame io =>
    match s.phase i with
    | .receiving user token info received =>
      some ((s.move i (receiveFrame user token info received frame io)).closeSession i token)
    | _ => none
  | .lock i =>
    match s.phase i, s.writer with
    | .waiting work, none => some { s.move i ([], .holding work) with writer := some (some i) }
    | _, _ => none
  | .apply i io =>
    match s.phase i with
    | .holding work =>
      let made := perform s.replica work io
      let applied :=
        if made.2 then (i, work.change, s.cluster.role) :: s.applied else s.applied
      some { s.move i ([], .replicating work made.2) with replica := made.1, applied }
    | _ => none
  | .finish i =>
    match s.phase i with
    | .replicating work done =>
      let confirmed := if done then (i, work.change) :: s.confirmed else s.confirmed
      some { s.move i (answer verify s.replica work done) with writer := none, confirmed }
    | _ => none
  | .hangup i =>
    match s.phase i with
    | .ready _ token | .receiving _ token _ _ =>
      some ((s.move i ([], .closed)).closeSession i token)
    | _ => none
  | .coordinator leader =>
    -- A lower leader only starts an election, which may lead to `becomePrimary`.
    if leader.id < s.cluster.self.id then some s
    else some { s with cluster := s.cluster.coordinator leader }
  | .replicaAttach conn primary members =>
    some { s with cluster := s.cluster.replicaAttach conn primary members }
  | .becomePrimary => some { s with cluster := s.cluster.becomePrimary.1 }
  | .clusterLock =>
    match s.writer with
    | none => some { s with writer := some none }
    | _ => none
  | .clusterUnlock =>
    match s.writer with
    | some none => some { s with writer := none }
    | _ => none
  | .replicated change =>
    match s.writer with
    | some none => some { s with replica := (s.replica.apply change).1 }
    | _ => none

end Step

/-- A server with open connections but no session yet. -/
def init {σ L : Type} (cluster : Cluster L) (replica : Replica) : State σ L where
  cluster
  replica
  writer := none
  phase _ := .closed
  sessions := []
  replies := []
  applied := []
  confirmed := []

/-! ## Demotion between requests -/

variable {σ L : Type}

/-- The server is demoted only while no request is between the check of the
role and its change. -/
def Settled (s : State σ L) : Label σ L → Prop
  | .coordinator leader =>
    leader.id < s.cluster.self.id ∨ ∀ i, (s.phase i).pending = false
  | .replicaAttach _ _ _ => ∀ i, (s.phase i).pending = false
  | _ => True

/-- Only a primary applied a client's change, and whatever was confirmed was
applied so. -/
structure PrimaryOnly (s : State σ L) : Prop where
  applied : ∀ i change role, (i, change, role) ∈ s.applied → role = .primary
  confirmed : ∀ i change, (i, change) ∈ s.confirmed → (i, change, .primary) ∈ s.applied

structure Inv (s : State σ L) : Prop extends PrimaryOnly s where
  pending : ∀ i, (s.phase i).pending = true → s.cluster.role = .primary
  replicating : ∀ i work, s.phase i = .replicating work true →
    (i, work.change, .primary) ∈ s.applied

/-! ## One step at a time -/

theorem serveClient_pending {c : Cluster L} {login : Bytes}
    (pending : (serveClient c login).2.pending = true) : c.role = .primary := by
  unfold serveClient at pending
  by_contra demoted
  split at pending
  · cases pending
  · rw [if_pos demoted] at pending
    cases pending

theorem isReplicating_serveClient (c : Cluster L) (login : Bytes) :
    (serveClient c login).2.isReplicating = false := by
  unfold serveClient
  repeat' split
  all_goals rfl

theorem checkPassword_quiet (verify : Bytes → Bytes → Bool) (accounts : Accounts)
    (user password : Bytes) :
    (checkPassword verify accounts user password).2.isReplicating = false ∧
      (checkPassword verify accounts user password).2.pending = false := by
  unfold checkPassword
  repeat' split
  all_goals exact ⟨rfl, rfl⟩

theorem isReplicating_authenticate (verify : Bytes → Bytes → Bool) (accounts : Accounts)
    (user password : Bytes) (made : Option Record) :
    (authenticate verify accounts user password made).2.isReplicating = false := by
  unfold authenticate
  split
  · rfl
  · exact (checkPassword_quiet ..).1

theorem isReplicating_handleRequest (r : Replica) (user token : Bytes) (msg : Message) :
    (handleRequest r user token msg).2.isReplicating = false := by
  unfold handleRequest
  repeat' split
  all_goals rfl

theorem isReplicating_receiveFrame (user token : Bytes) (info : FileInfo) (received : Bytes)
    (frame : Message) (io : Bool) :
    (receiveFrame user token info received frame io).2.isReplicating = false := by
  unfold receiveFrame
  repeat' split
  all_goals rfl

theorem answer_quiet (verify : Bytes → Bytes → Bool) (r : Replica) (work : Work) (done : Bool) :
    (answer verify r work done).2.isReplicating = false ∧
      (answer verify r work done).2.pending = false := by
  unfold answer
  repeat' split
  all_goals first | exact ⟨rfl, rfl⟩ | exact checkPassword_quiet ..

section Steps

variable [DecidableEq σ] {verify : Bytes → Bytes → Bool} {s s' : State σ L} {i : σ}
  {token : Bytes} {n : List Message × Phase}

/-- A thread goes on without making or confirming a change. -/
theorem Inv.move (inv : Inv s) (pending : n.2.pending = true → s.cluster.role = .primary)
    (quiet : n.2.isReplicating = false) : Inv (s.move i n) where
  applied := inv.applied
  confirmed := inv.confirmed
  pending j held := by
    simp only [State.move, update_apply] at held
    split at held
    · exact pending held
    · exact inv.pending j held
  replicating j work held := by
    simp only [State.move, update_apply] at held
    split at held
    · rw [held] at quiet
      cases quiet
    · exact inv.replicating j work held

omit [DecidableEq σ] in
theorem Inv.closeSession (inv : Inv s) : Inv (s.closeSession i token) := by
  unfold State.closeSession
  split
  · exact { inv with }
  · exact inv

omit [DecidableEq σ] in
/-- A demotion while no change is pending. -/
theorem Inv.demote (inv : Inv s) (settled : ∀ i, (s.phase i).pending = false) (c : Cluster L) :
    Inv { s with cluster := c } where
  applied := inv.applied
  confirmed := inv.confirmed
  pending j held := by
    rw [settled j] at held
    cases held
  replicating := inv.replicating

theorem Inv.apply (inv : Inv s) {work : Work} (holding : s.phase i = .holding work) (io : Bool) :
    Inv { s.move i ([], .replicating work (perform s.replica work io).2) with
      replica := (perform s.replica work io).1
      applied := if (perform s.replica work io).2 then
        (i, work.change, s.cluster.role) :: s.applied else s.applied } := by
  have primary : s.cluster.role = .primary := inv.pending i (by rw [holding]; rfl)
  constructor
  case toPrimaryOnly =>
    split
    · constructor
      · intro j change role mem
        rcases List.mem_cons.mp mem with eq | mem
        · cases eq
          exact primary
        · exact inv.applied j change role mem
      · exact fun j change mem => List.mem_cons_of_mem _ (inv.confirmed j change mem)
    · exact ⟨inv.applied, inv.confirmed⟩
  case pending => exact fun j _ => primary
  case replicating =>
    intro j other held
    simp only [State.move, update_apply] at held
    split at held
    · subst j
      obtain ⟨rfl, made⟩ := Phase.replicating.inj held
      simp only [made, primary, if_true]
      exact List.mem_cons_self
    · have earlier := inv.replicating j other held
      split
      · exact List.mem_cons_of_mem _ earlier
      · exact earlier

theorem Inv.finish (inv : Inv s) {work : Work} {done : Bool}
    (replicating : s.phase i = .replicating work done) :
    Inv { s.move i (answer verify s.replica work done) with
      writer := none
      confirmed := if done then (i, work.change) :: s.confirmed else s.confirmed } := by
  obtain ⟨quiet, idle⟩ := answer_quiet verify s.replica work done
  have moved := inv.move (i := i) (n := answer verify s.replica work done)
    (fun pending => by rw [idle] at pending; cases pending) quiet
  cases done with
  | false => exact { moved with }
  | true =>
    refine { moved with confirmed := fun j change mem => ?_ }
    rcases List.mem_cons.mp mem with eq | mem
    · cases eq
      exact inv.replicating i work replicating
    · exact inv.confirmed j change mem

theorem Inv.step (a : Label σ L) (inv : Inv s) (settled : Settled s a)
    (stepped : step verify s a = some s') : Inv s' := by
  cases a with
  | login i payload =>
    simp only [Requests.step] at stepped
    split at stepped <;> cases stepped
    exact inv.move serveClient_pending (isReplicating_serveClient ..)
  | authenticate i made =>
    simp only [Requests.step] at stepped
    split at stepped <;> cases stepped
    rename_i authenticating
    exact inv.move (fun _ => inv.pending i (by rw [authenticating]; rfl))
      (isReplicating_authenticate ..)
  | openSession i token io =>
    simp only [Requests.step] at stepped
    split at stepped
    case h_2 => cases stepped
    repeat' split at stepped
    all_goals
      cases stepped
      exact Inv.move { inv with } (by rintro ⟨⟩) rfl
  | request i msg =>
    simp only [Requests.step] at stepped
    split at stepped
    case h_2 => cases stepped
    split at stepped <;> cases stepped
    · exact (inv.move (by rintro ⟨⟩) rfl).closeSession
    · rename_i primary
      exact (inv.move (fun _ => not_not.mp primary) (isReplicating_handleRequest ..)).closeSession
  | frame i frame io =>
    simp only [Requests.step] at stepped
    split at stepped <;> cases stepped
    rename_i receiving
    exact (inv.move (fun _ => inv.pending i (by rw [receiving]; rfl))
      (isReplicating_receiveFrame ..)).closeSession
  | lock i =>
    simp only [Requests.step] at stepped
    split at stepped <;> cases stepped
    rename_i waiting _
    exact { inv.move (i := i) (n := ([], .holding _))
      (fun _ => inv.pending i (by rw [waiting]; rfl)) rfl with }
  | apply i io =>
    simp only [Requests.step] at stepped
    split at stepped <;> cases stepped
    exact inv.apply ‹_› io
  | finish i =>
    simp only [Requests.step] at stepped
    split at stepped <;> cases stepped
    exact inv.finish ‹_›
  | hangup i =>
    simp only [Requests.step] at stepped
    split at stepped <;> cases stepped
    all_goals exact (inv.move (by rintro ⟨⟩) rfl).closeSession
  | coordinator leader =>
    simp only [Requests.step] at stepped
    split at stepped <;> cases stepped
    · exact inv
    · exact inv.demote (settled.resolve_left ‹_›) _
  | replicaAttach conn primary members =>
    cases stepped
    exact inv.demote settled _
  | becomePrimary =>
    cases stepped
    exact { inv with pending := fun _ _ => rfl }
  | clusterLock =>
    simp only [Requests.step] at stepped
    split at stepped <;> cases stepped
    exact { inv with }
  | clusterUnlock =>
    simp only [Requests.step] at stepped
    split at stepped <;> cases stepped
    exact { inv with }
  | replicated change =>
    simp only [Requests.step] at stepped
    split at stepped <;> cases stepped
    exact { inv with }

/-- **Only a primary commits client changes.** In every state of every run, from
a server without sessions, whose demotions fall between requests: every client
change was applied while the role was primary, and every confirmed one was
applied so. -/
theorem applied_as_primary {cluster : Cluster L} {replica : Replica} {labels : List (Label σ L)}
    (settled : Meets (step verify) Settled (init cluster replica) labels)
    (ran : run (step verify) (init cluster replica) labels = some s) : PrimaryOnly s :=
  (run_invariant (I := Inv) (fun _ a _ => Inv.step a)
    ⟨⟨nofun, nofun⟩, nofun, nofun⟩ settled ran).toPrimaryOnly

end Steps

/-! ## An upload across an election -/

section Examples

/-- The second server of a cluster, once it took over from the first. -/
def secondPrimary : Cluster Unit :=
  ((Cluster.init (bytes "a") 4000).join 999 1000 (bytes "b") 4000).becomePrimary.1

def anaRecord : Record := ⟨bytes
  "pbkdf2-sha256$1$00$0000000000000000000000000000000000000000000000000000000000000000",
  by decide +kernel⟩

def anaOnly : Replica := ⟨∅, (∅ : Accounts).put (bytes "ana") anaRecord.val anaRecord.property⟩

/-- Ana logs in and announces an upload of one byte to `x`. -/
def announce : List (Label Unit Unit) :=
  [.login () ((Writer.str (bytes "ana")).getD [] ++ (Writer.str (bytes "secret")).getD []),
    .authenticate () none, .openSession () (bytes "t") true,
    .request () ⟨.upload, Writer.u8 1 ++ (writeFileHeader ⟨bytes "x", 1, 0, 0⟩).getD []⟩]

/-- The body arrives, the file is committed and the client is answered. -/
def store : List (Label Unit Unit) :=
  [.frame () ⟨.fileData, [7]⟩ true, .frame () ⟨.fileEnd, []⟩ true, .lock (), .apply () true,
    .finish ()]

/-- The first server, which was only late to answer, leads again. -/
def takeover : Label Unit Unit := .coordinator ⟨1000, bytes "b", 4000⟩

/-- The takeover falls between the announcement and the body: the upload is
committed by a backup, and answered with `Ok`. -/
theorem committed_by_backup :
    ¬∀ (σ L : Type) [DecidableEq σ] (verify : Bytes → Bytes → Bool) (cluster : Cluster L)
      (replica : Replica) (labels : List (Label σ L)) (s : State σ L),
      run (step verify) (init cluster replica) labels = some s → PrimaryOnly s := by
  intro claim
  obtain ⟨s, ran, applied⟩ : ∃ s, run (step fun _ _ => true) (init secondPrimary anaOnly)
      (announce ++ takeover :: store) = some s ∧ s.applied.map (·.2.2) = [.backup] :=
    ⟨_, rfl, by decide +kernel⟩
  obtain ⟨⟨i, change, role⟩, mem, eq⟩ : ∃ entry ∈ s.applied, entry.2.2 = .backup := by
    rw [← List.mem_map, applied]
    exact List.mem_singleton_self _
  exact absurd ((claim _ _ _ _ _ _ s ran).applied i change role mem) (by rintro rfl; cases eq)

/-- After the answer the takeover does no harm. -/
theorem committed_before_takeover :
    ∃ s, run (step fun _ _ => true) (init secondPrimary anaOnly) (announce ++ store ++ [takeover]) =
        some s ∧ s.confirmed.length = 1 ∧ s.cluster.role = .backup ∧ PrimaryOnly s := by
  refine ⟨_, rfl, by decide +kernel, by decide +kernel, ?_⟩
  have ran : run (step fun _ _ => true) (init secondPrimary anaOnly)
    (announce ++ store ++ [takeover]) = some _ := rfl
  refine applied_as_primary ?_ ran
  refine ⟨trivial, trivial, trivial, trivial, trivial, trivial, trivial, trivial, trivial, ?_,
    trivial⟩
  exact .inr fun _ => rfl

end Examples

end SisOp.Requests
