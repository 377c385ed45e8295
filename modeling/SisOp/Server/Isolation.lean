import SisOp.Server.Disk
import SisOp.Server.Requests
import SisOp.Lib.Unwinding

/-!
# Users do not see each other

What a logged-in client can ask for (`handle_request` and its handlers, the
pushes that follow a change, the end of a session) on what the client threads
share: the tree of all files, the cache of hashes, the accounts and the sessions.

Main result: `users_isolated`, the replies to a user and the pushes to that user's
clients depend on nothing of the other users, and nothing of theirs changes.
-/

namespace SisOp.Isolation

open Lib Std

/-! ## The shared state -/

/-- `Session`; `σ` are the connections. -/
structure Session (σ : Type) where
  user : Bytes
  command : σ
  sync : Option σ
  deriving DecidableEq

structure State (σ : Type) where
  disk : Disk.Tree
  cache : HashCache
  accounts : Accounts
  sessions : ExtTreeMap Bytes (Session σ)

/-- A request, and what the world does while it is served: the role when it
arrives, the calls that fail, the frames after an upload, whether the temporary
file can be written, whether the replies can be sent, and the connections that
turn out to be lost. -/
structure Request (σ : Type) where
  msg : Message
  primary : Bool
  faults : Faults
  body : List Message
  io : Bool
  sends : Bool
  loses : σ → Bool

/-- What others can see of a request: the messages sent to the client, the
change sent to the backups, the messages pushed on a sync connection, and the
connections shut down. -/
inductive Effect (σ : Type) where
  | reply (m : Message)
  | replicate (change : Change)
  | push (conn : σ) (ms : List Message)
  | shutdown (conn : σ)

/-- `Origin::Sync`. -/
def ORIGIN_SYNC : UInt8 := 1

/-- The state afterwards, what was sent, and whether to go on. -/
abbrev Handled (σ : Type) := State σ × List (Effect σ) × Bool

section Handlers

variable {σ : Type} (root user token : Bytes) (r : Request σ) (s : State σ)

def sendError (reason : Bytes) : Handled σ := (s, [.reply (Requests.errorReply reason)], r.sends)

/-- `send_file` of an open file. -/
def fileFrames (type : Msg) (path : Bytes) (file : File) : List Message :=
  ⟨type, (writeFileHeader (file.info path)).getD []⟩ :: bodyFrames file.content

/-- `SessionManager::sync_connections`. -/
def syncConnections (exceptToken : Bytes) : List σ :=
  s.sessions.toList.filterMap fun entry =>
    if entry.1 ≠ exceptToken ∧ entry.2.user = user then entry.2.sync else none

def pushAll (exceptToken : Bytes) (ms : List Message) : List (Effect σ) :=
  (syncConnections user s exceptToken).flatMap fun conn =>
    .push conn ms :: if r.loses conn then [.shutdown conn] else []

/-- `push_file`. -/
def pushFile (path exceptToken : Bytes) : List (Effect σ) :=
  match s.disk.file? (filePath root user path) with
  | some file => pushAll user r s exceptToken (fileFrames .pushFile path file)
  | none => []

/-- `push_delete`. -/
def pushDelete (path exceptToken : Bytes) : List (Effect σ) :=
  pushAll user r s exceptToken [⟨.pushDelete, (Writer.str path).getD []⟩]

/-- `Storage::commit`; the cached hash goes once the parents are there. -/
def commit (path : Bytes) (temp : File) : State σ × Bool :=
  let ensured := Disk.ensureUser root s.disk user
  let parents := Disk.makeParentDirs ensured.1 (userDir root user) path
  let stored := Disk.commit root s.disk user path temp
  ({ s with
      disk := stored.1
      cache := if ensured.2 && parents.2 then s.cache.erase
        (filePath root user path) else s.cache },
    stored.2)

/-- `Storage::remove`. -/
def remove (path : Bytes) : State σ × Bool :=
  let removed := Disk.remove root s.disk user path
  ({ s with
      disk := removed.1
      cache := if removed.2 then s.cache.erase (filePath root user path) else s.cache },
    removed.2)

def handleList : Handled σ :=
  let listed := listUser r.faults (Disk.userTree root s.disk user) (filePath root user) s.cache
  let s := { s with cache := listed.2 }
  match listed.1.mapM writeFileInfo with
  | none => (s, [], false) -- the writer throws
  | some items =>
    let payload := Writer.u32 listed.1.length.toUInt32 ++ items.flatten
    if payload.length > MAX_PAYLOAD then sendError r s (bytes "too many files to list")
    else (s, [.reply ⟨.fileList, payload⟩], r.sends)

/-- `handle_upload` once the body is in. -/
def storeUpload (origin : UInt8) (path : Bytes) (file : File) : Handled σ :=
  let stored := commit root user s path file
  if stored.2 then
    (stored.1, .replicate (.put user path file) :: .reply ⟨.ok, []⟩ ::
      (if r.sends then
        pushFile root user r stored.1 path (if origin = ORIGIN_SYNC then token else [])
      else []), r.sends)
  else
    sendError r stored.1 (bytes "the server could not store " ++ path ++
      bytes " (a file and a folder can't have the same name)")

def handleUpload : Handled σ :=
  match Requests.readUpload.run r.msg.payload with
  | none => (s, [], false)
  | some ((origin, info), _) =>
    match recvFileBody info.size.toNat [] r.body with
    | (.connectionLost, _, _) => (s, [], false)
    | (.ok, received, _) =>
      if small : received.length < 2 ^ 63 then
        if !r.io then sendError r s (bytes "the upload was not completed")
        else if !isValidPath info.name then sendError r s (bytes "invalid file name")
        else storeUpload root user token r s origin info.name ⟨received, info.mtimeNs, small⟩
      else sendError r s (bytes "the upload was not completed")
    | _ => sendError r s (bytes "the upload was not completed")

def handleDownload : Handled σ :=
  match Reader.str.run r.msg.payload with
  | none => (s, [], false)
  | some (path, _) =>
    if !isValidPath path then sendError r s (bytes "invalid file name")
    else
      match if r.faults.stats path then s.disk.file? (filePath root user path) else none with
      | none => sendError r s (bytes "no such file on the server")
      | some file => (s, (fileFrames .file path file).map .reply, r.sends)

def handleDelete : Handled σ :=
  match Requests.readDelete.run r.msg.payload with
  | none => (s, [], false)
  | some ((origin, path), _) =>
    if !isValidPath path then sendError r s (bytes "invalid file name")
    else
      let removed := remove root user s path
      if removed.2 then
        (removed.1, .replicate (.delete user path) :: .reply ⟨.ok, []⟩ ::
          (if r.sends then
            pushDelete user r removed.1 path (if origin = ORIGIN_SYNC then token else [])
          else []), r.sends)
      else sendError r removed.1 (bytes "no such file on the server")

def handleRequest : Handled σ :=
  match r.msg.type with
  | .ping => (s, [.reply ⟨.pong, []⟩], r.sends)
  | .logout => (s, [.reply ⟨.ok, []⟩], false)
  | .listFiles => handleList root user r s
  | .upload => handleUpload root user token r s
  | .download => handleDownload root user r s
  | .delete => handleDelete root user token r s
  | other => (s, [.reply (Requests.errorReply (bytes "unexpected " ++ msgName other))], false)

/-- `SessionManager::close`. -/
def closeSession : State σ × List (Effect σ) :=
  match s.sessions[token]? with
  | none => (s, [])
  | some session =>
    ({ s with sessions := s.sessions.erase token },
      .shutdown session.command :: session.sync.toList.map .shutdown)

/-- The check of the role, then `handle_request`. -/
def answer : Handled σ :=
  if r.primary then handleRequest root user token r s
  else (s, [.reply (Requests.errorReply (bytes "this server is no longer the primary"))], false)

/-- One round of the loop of `serve_client`. -/
def serve : State σ × List (Effect σ) :=
  let one := answer root user token r s
  if one.2.2 then (one.1, one.2.1)
  else
    let closed := closeSession token one.1
    (closed.1, one.2.1 ++ closed.2)

end Handlers

/-- A request that arrives on the connection of a user's session. -/
structure Label (σ : Type) where
  user : Bytes
  token : Bytes
  request : Request σ

/-- The thread of a session that is still open serves the request. -/
def step {σ : Type} (root : Bytes) (s : State σ) (l : Label σ) : State σ × List (Effect σ) :=
  match s.sessions[l.token]? with
  | some session =>
    if session.user = l.user then serve root l.user l.token l.request s else (s, [])
  | none => (s, [])

/-! ## What a user has -/

section User

variable {σ : Type} {root user : Bytes}

/-- The user's own sessions. -/
def State.ownSessions (s : State σ) (user : Bytes) : ExtTreeMap Bytes (Session σ) :=
  s.sessions.filter fun _ session => decide (session.user = user)

/-- Two states agree on what a user has: files, cached hashes, account and
sessions. The user's directory is there, since a login makes it. -/
structure Same (root user : Bytes) (s t : State σ) : Prop where
  left : Disk.HasUser root s.disk user
  right : Disk.HasUser root t.disk user
  tree : Disk.userTree root s.disk user = Disk.userTree root t.disk user
  cache : ∀ p, s.cache[filePath root user p]? = t.cache[filePath root user p]?
  account : s.accounts.get user = t.accounts.get user
  sessions : s.ownSessions user = t.ownSessions user

/-- Nothing but a user's own files, cached hashes and sessions changed. -/
structure Confined (root user : Bytes) (s s' : State σ) : Prop where
  disk : ∀ q, (subdir (userDir root user)).Outside q → s'.disk.node q = s.disk.node q
  cache : ∀ k, (∀ p, k ≠ filePath root user p) → s'.cache[k]? = s.cache[k]?
  accounts : s'.accounts = s.accounts
  sessions : ∀ (token : Bytes) (session : Session σ), session.user ≠ user →
    (s'.sessions[token]? = some session ↔ s.sessions[token]? = some session)

/-- The session is one of the user's. -/
def State.IsOwn (s : State σ) (user : Bytes) (session : Session σ) : Prop :=
  session.user = user ∧ ∃ token : Bytes, s.sessions[token]? = some session

/-- A change of a user's file, a push to one of the user's sync connections, the
end of one of the user's connections. -/
def Effect.Own (user : Bytes) (s : State σ) : Effect σ → Prop
  | .reply _ => True
  | .replicate (.put u _ _) | .replicate (.delete u _) | .replicate (.account u _) => u = user
  | .push conn _ => ∃ session, s.IsOwn user session ∧ session.sync = some conn
  | .shutdown conn =>
    ∃ session, s.IsOwn user session ∧ (session.sync = some conn ∨ session.command = conn)

/-- Every session is that of a valid user whose directory is there. -/
def LoggedIn (root : Bytes) (s : State σ) : Prop :=
  ∀ (token : Bytes) (session : Session σ), s.sessions[token]? = some session →
    isValidUsername session.user = true ∧ Disk.HasUser root s.disk session.user

variable {s s' s'' t t' : State σ}

theorem Same.symm (same : Same root user s t) : Same root user t s :=
  ⟨same.right, same.left, same.tree.symm, fun p => (same.cache p).symm, same.account.symm,
    same.sessions.symm⟩

theorem Same.trans (first : Same root user s t) (second : Same root user t s') :
    Same root user s s' :=
  ⟨first.left, second.right, first.tree.trans second.tree,
    fun p => (first.cache p).trans (second.cache p), first.account.trans second.account,
    first.sessions.trans second.sessions⟩

theorem Confined.refl : Confined root user s s :=
  ⟨fun _ _ => rfl, fun _ _ => rfl, rfl, fun _ _ _ => Iff.rfl⟩

/-- Confined work after confined work is confined. -/
theorem Confined.trans (first : Confined root user s s') (second : Confined root user s' s'') :
    Confined root user s s'' where
  disk q outside := (second.disk q outside).trans (first.disk q outside)
  cache k other := (second.cache k other).trans (first.cache k other)
  accounts := second.accounts.trans first.accounts
  sessions token session other :=
    (second.sessions token session other).trans (first.sessions token session other)

/-- A user's sessions are looked up among all. -/
theorem getElem?_ownSessions (s : State σ) (user token : Bytes) :
    (s.ownSessions user)[token]? = s.sessions[token]?.filter (·.user = user) :=
  ExtTreeMap.getElem?_filter'

/-- What confined work leaves of another user. -/
theorem Confined.same (userValid : isValidUsername user = true) {u : Bytes}
    (uValid : isValidUsername u = true) (other : u ≠ user) (confined : Confined root user s s')
    (has : Disk.HasUser root s.disk u) : Same root u s s' where
  left := has
  right := (confined.disk _ (Disk.outside_userDir uValid)).trans has
  tree := by
    refine FileTree.ext_node fun p => ?_
    rw [Disk.userTree, Disk.userTree, FileTree.node_sub, FileTree.node_sub,
      ← Disk.under_path uValid]
    exact (confined.disk _ (Disk.outside_filePath userValid uValid other p)).symm
  cache p :=
    (confined.cache _ fun q eq => other ((filePath_inj uValid userValid).mp eq).1).symm
  account := by rw [confined.accounts]
  sessions := by
    refine ExtTreeMap.ext_getElem? fun token => Option.ext fun session => ?_
    simp only [getElem?_ownSessions, Option.filter_eq_some_iff, decide_eq_true_eq]
    refine and_congr_left fun mine => ?_
    rw [confined.sessions token session (by rw [mine]; exact other)]

end User

/-! ## Handlers -/

section Handled

variable {σ : Type} {root user token : Bytes} {r : Request σ} {s t : State σ}

/-- What a handler does: only the user's own things change, the sessions stay, and
what is sent concerns the user. -/
structure Keeps (root user : Bytes) (s : State σ) (h : Handled σ) : Prop where
  confined : Confined root user s h.1
  sessions : h.1.sessions = s.sessions
  own : ∀ e ∈ h.2.1, e.Own user s

/-- Handlers that cannot be told apart. -/
structure Alike (root user : Bytes) (h h' : Handled σ) : Prop where
  sent : h.2 = h'.2
  same : Same root user h.1 h'.1

/-- Whom a push goes to depends on the user's own sessions. -/
theorem syncConnections_eq (exceptToken : Bytes) : syncConnections user s exceptToken =
    (s.ownSessions user).toList.filterMap fun entry =>
      if entry.1 ≠ exceptToken then entry.2.sync else none := by
  rw [State.ownSessions, ExtTreeMap.toList_filter, List.filterMap_filter, syncConnections]
  refine List.filterMap_congr fun entry _ => ?_
  by_cases mine : entry.2.user = user <;> simp [mine]

/-- A push goes to sync connections of the user's sessions. -/
theorem mem_syncConnections {exceptToken : Bytes} {conn : σ}
    (mem : conn ∈ syncConnections user s exceptToken) :
    ∃ session, s.IsOwn user session ∧ session.sync = some conn := by
  obtain ⟨⟨token, session⟩, listed, hit⟩ := List.mem_filterMap.mp mem
  split at hit
  · rename_i both
    exact ⟨session, ⟨both.2, token, Map.mem_toList_iff.mp listed⟩, hit⟩
  · cases hit

/-- All that a push sends or shuts down is the user's. -/
theorem own_pushAll {exceptToken : Bytes} {ms : List Message} {e : Effect σ}
    (mem : e ∈ pushAll user r s exceptToken ms) : e.Own user s := by
  obtain ⟨conn, listed, sent⟩ := List.mem_flatMap.mp mem
  obtain ⟨session, mine, sync⟩ := mem_syncConnections listed
  rcases List.mem_cons.mp sent with rfl | sent
  · exact ⟨session, mine, sync⟩
  · split at sent
    · rw [List.mem_singleton.mp sent]
      exact ⟨session, mine, .inl sync⟩
    · cases sent

/-- States that agree on the user push the same. -/
theorem Same.pushAll (same : Same root user s t) (exceptToken : Bytes) (ms : List Message) :
    pushAll user r s exceptToken ms = pushAll user r t exceptToken ms := by
  rw [Isolation.pushAll, Isolation.pushAll, syncConnections_eq, syncConnections_eq, same.sessions]

/-- States that agree on the user have the same file at each of the user's paths. -/
theorem Same.file? (valid : isValidUsername user = true) (same : Same root user s t)
    (path : Bytes) :
    s.disk.file? (filePath root user path) = t.disk.file? (filePath root user path) := by
  have tree := congrArg (·.file? path) same.tree
  simpa only [Disk.userTree, FileTree.file?_sub, ← Disk.under_path valid] using tree

theorem Effect.Own.congr {e : Effect σ} (own : e.Own user s) (sessions : s.sessions = t.sessions) :
    e.Own user t := by
  unfold Effect.Own State.IsOwn at own ⊢
  rwa [sessions] at own

/-- A handler that only replies keeps everything. -/
theorem Keeps.of_silent {keep : Bool} (m : List Message) :
    Keeps root user s (s, m.map .reply, keep) where
  confined := .refl
  sessions := rfl
  own e mem := by
    obtain ⟨_, -, rfl⟩ := List.mem_map.mp mem
    trivial

theorem Keeps.sendError (reason : Bytes) : Keeps root user s (sendError r s reason) :=
  .of_silent [_]

/-- An error sent after work that only concerned the user. -/
theorem Keeps.sendError_after {s' : State σ} (confined : Confined root user s s')
    (sessions : s'.sessions = s.sessions) (reason : Bytes) :
    Keeps root user s (Isolation.sendError r s' reason) where
  confined := confined
  sessions := sessions
  own e mem := by
    rw [List.mem_singleton.mp mem]
    trivial

/-- Work below the user's directory, with the cached hashes of the user, is confined. -/
theorem confined_of_works {disk below : Disk.Tree} {cache : HashCache}
    (works : FileTree.Works (subdir (userDir root user)) s.disk disk below)
    (kept : ∀ k, (∀ p, k ≠ filePath root user p) → cache[k]? = s.cache[k]?) :
    Confined root user s { s with disk, cache } :=
  ⟨works.outside, kept, rfl, fun _ _ _ => Iff.rfl⟩

/-- The same work below the user's directory keeps the agreement of two states. -/
theorem same_of_works (same : Same root user s t) {disk disk' below : Disk.Tree}
    {cache cache' : HashCache}
    (works : FileTree.Works (subdir (userDir root user)) s.disk disk below)
    (works' : FileTree.Works (subdir (userDir root user)) t.disk disk' below)
    (cached : ∀ p, cache[filePath root user p]? = cache'[filePath root user p]?) :
    Same root user { s with disk, cache } { t with disk := disk', cache := cache' } :=
  ⟨same.left.of_works works, same.right.of_works works',
    works.below.trans works'.below.symm, cached, same.account, same.sessions⟩

/-- Dropping a cached hash of the user, or not. -/
theorem kept_erase (cache : HashCache) (drop : Bool) (path k : Bytes)
    (other : ∀ p, k ≠ filePath root user p) :
    (if drop then cache.erase (filePath root user path) else cache)[k]? = cache[k]? := by
  cases drop with
  | false => rfl
  | true => rw [if_pos rfl, Map.getElem?_erase, if_neg (other path)]

/-- An entry dropped from both caches leaves them alike. -/
theorem cached_erase {cache cache' : HashCache}
    (same : ∀ p, cache[filePath root user p]? = cache'[filePath root user p]?) (drop : Bool)
    (path p : Bytes) :
    (if drop then cache.erase (filePath root user path) else cache)[filePath root user p]? =
      (if drop then cache'.erase (filePath root user path) else cache')[filePath root user p]? := by
  cases drop with
  | false => exact same p
  | true => rw [if_pos rfl, if_pos rfl, Map.getElem?_erase, Map.getElem?_erase, same p]

section Commit

variable {path : Bytes} (valid : isValidUsername user = true) (temp : File)

include valid

/-- `commit` of a valid path writes below the user's directory. -/
theorem confined_commit (pathValid : isValidPath path = true)
    (has : Disk.HasUser root s.disk user) :
    Confined root user s (commit root user s path temp).1 :=
  confined_of_works (Disk.works_commit valid pathValid has temp).1 fun k other =>
    kept_erase s.cache _ path k other

/-- `commit` does the same in states that agree on the user. -/
theorem same_commit (pathValid : isValidPath path = true) (same : Same root user s t) :
    (commit root user s path temp).2 = (commit root user t path temp).2 ∧
      Same root user (commit root user s path temp).1 (commit root user t path temp).1 := by
  obtain ⟨works, stored⟩ := Disk.works_commit valid pathValid same.left temp
  obtain ⟨works', stored'⟩ := Disk.works_commit valid pathValid same.right temp
  have parents := (Disk.works_makeParentDirs valid pathValid same.left).2
  have parents' := (Disk.works_makeParentDirs valid pathValid same.right).2
  rw [← same.tree] at works' stored' parents'
  unfold commit
  dsimp only
  refine ⟨stored.trans stored'.symm, same_of_works same works works' fun p => ?_⟩
  rw [Disk.ensureUser_of_has same.left, Disk.ensureUser_of_has same.right, parents, parents']
  exact cached_erase same.cache _ path p

theorem confined_remove (path : Bytes) : Confined root user s (remove root user s path).1 :=
  confined_of_works (Disk.works_remove valid s.disk path).1 fun k other =>
    kept_erase s.cache _ path k other

/-- `remove` does the same in states that agree on the user. -/
theorem same_remove (path : Bytes) (same : Same root user s t) :
    (remove root user s path).2 = (remove root user t path).2 ∧
      Same root user (remove root user s path).1 (remove root user t path).1 := by
  obtain ⟨works, removed⟩ := Disk.works_remove valid s.disk path
  obtain ⟨works', removed'⟩ := Disk.works_remove valid t.disk path
  rw [← same.tree] at works' removed'
  unfold remove
  dsimp only
  refine ⟨removed.trans removed'.symm, same_of_works same works works' fun p => ?_⟩
  rw [removed, removed']
  exact cached_erase same.cache _ path p

end Commit

section Requests

variable (valid : isValidUsername user = true)

include valid

omit valid in
/-- A list changes nothing but the cached hashes of the user's files. -/
theorem keeps_handleList : Keeps root user s (handleList root user r s) := by
  have confined : Confined root user s { s with cache := (listUser r.faults
      (Disk.userTree root s.disk user) (filePath root user) s.cache).2 } :=
    ⟨fun _ _ => rfl, fun k other => cache_listFiles other _ _, rfl, fun _ _ _ => Iff.rfl⟩
  unfold handleList
  dsimp only
  split
  · exact ⟨confined, rfl, nofun⟩
  · split
    · exact .sendError_after confined rfl _
    · refine ⟨confined, rfl, fun e mem => ?_⟩
      rw [List.mem_singleton.mp mem]
      trivial

omit valid in
/-- A list shows the user's files, whatever else there is. -/
theorem alike_handleList (same : Same root user s t) :
    Alike root user (handleList root user r s) (handleList root user r t) := by
  obtain ⟨listed, cached⟩ := @listFiles_congr (Disk.userTree root s.disk user) r.faults
    (filePath root user) s.cache t.cache same.cache
      (listTree r.faults (Disk.userTree root s.disk user))
  have after : ∀ cache cache' : HashCache,
      (∀ p, cache[filePath root user p]? = cache'[filePath root user p]?) →
        Same root user { s with cache } { t with cache := cache' } :=
    fun _ _ cached => ⟨same.left, same.right, same.tree, cached, same.account, same.sessions⟩
  unfold handleList listUser
  rw [← same.tree]
  dsimp only
  rw [← listed]
  split
  · exact ⟨rfl, after _ _ cached⟩
  · split <;> exact ⟨rfl, after _ _ cached⟩

/-- An upload is stored, replicated and pushed as the user's. -/
theorem keeps_storeUpload {path : Bytes} (pathValid : isValidPath path = true)
    (has : Disk.HasUser root s.disk user) (origin : UInt8) (file : File) :
    Keeps root user s (storeUpload root user token r s origin path file) := by
  have confined := confined_commit valid file pathValid has
  unfold storeUpload
  dsimp only
  split
  · refine ⟨confined, rfl, fun e mem => ?_⟩
    rcases List.mem_cons.mp mem with rfl | mem
    · rfl
    · rcases List.mem_cons.mp mem with rfl | mem
      · trivial
      · split at mem
        · unfold pushFile at mem
          split at mem
          · exact (own_pushAll mem).congr rfl
          · cases mem
        · cases mem
  · exact .sendError_after confined rfl _

/-- The outcome of an upload depends on what the user has. -/
theorem alike_storeUpload {path : Bytes} (pathValid : isValidPath path = true)
    (same : Same root user s t) (origin : UInt8) (file : File) :
    Alike root user (storeUpload root user token r s origin path file)
      (storeUpload root user token r t origin path file) := by
  obtain ⟨stored, after⟩ := same_commit valid file pathValid same
  have pushed : ∀ exceptToken,
    pushFile root user r (commit root user s path file).1 path exceptToken =
      pushFile root user r (commit root user t path file).1 path exceptToken := by
    intro exceptToken
    unfold pushFile
    rw [after.file? valid path]
    split
    · exact after.pushAll _ _
    · rfl
  unfold storeUpload
  dsimp only
  rw [← stored, ← pushed]
  split
  · exact ⟨rfl, after⟩
  · exact ⟨rfl, after⟩

/-- An upload that is refused or cut short keeps everything but the user's own things too.
-/
theorem keeps_handleUpload (has : Disk.HasUser root s.disk user) :
    Keeps root user s (handleUpload root user token r s) := by
  unfold handleUpload
  split
  · exact .of_silent []
  · split
    · exact .of_silent []
    · split
      · split
        · exact .sendError _
        · split
          · exact .sendError _
          · rename_i pathValid
            exact keeps_storeUpload valid (by simpa using pathValid) has _ _
      · exact .sendError _
    · exact .sendError _

theorem alike_handleUpload (same : Same root user s t) :
    Alike root user (handleUpload root user token r s) (handleUpload root user token r t) := by
  unfold handleUpload
  split
  · exact ⟨rfl, same⟩
  · split
    · exact ⟨rfl, same⟩
    · split
      · split
        · exact ⟨rfl, same⟩
        · split
          · exact ⟨rfl, same⟩
          · rename_i pathValid
            exact alike_storeUpload valid (by simpa using pathValid) same _ _
      · exact ⟨rfl, same⟩
    · exact ⟨rfl, same⟩

theorem alike_handleDownload (same : Same root user s t) :
    Alike root user (handleDownload root user r s) (handleDownload root user r t) := by
  unfold handleDownload
  split
  · exact ⟨rfl, same⟩
  · split
    · exact ⟨rfl, same⟩
    · rename_i path _ _ _
      rw [same.file? valid]
      split <;> exact ⟨rfl, same⟩

omit valid in
theorem keeps_handleDownload : Keeps root user s (handleDownload root user r s) := by
  unfold handleDownload
  split
  · exact .of_silent []
  · split
    · exact .sendError _
    · split
      · exact .sendError _
      · exact .of_silent _

theorem keeps_handleDelete : Keeps root user s (handleDelete root user token r s) := by
  unfold handleDelete
  split
  · exact .of_silent []
  · split
    · exact .sendError _
    · rename_i path _ _ _
      have confined : Confined root user s (remove root user s path).1 := confined_remove valid path
      dsimp only
      split
      · refine ⟨confined, rfl, fun e mem => ?_⟩
        rcases List.mem_cons.mp mem with rfl | mem
        · rfl
        · rcases List.mem_cons.mp mem with rfl | mem
          · trivial
          · split at mem
            · exact (own_pushAll mem).congr rfl
            · cases mem
      · exact .sendError_after confined rfl _

theorem alike_handleDelete (same : Same root user s t) :
    Alike root user (handleDelete root user token r s) (handleDelete root user token r t) := by
  unfold handleDelete
  split
  · exact ⟨rfl, same⟩
  · split
    · exact ⟨rfl, same⟩
    · rename_i path _ _ _
      obtain ⟨removed, after⟩ := same_remove valid path same
      have pushed : ∀ exceptToken, pushDelete user r (remove root user s path).1 path exceptToken =
          pushDelete user r (remove root user t path).1 path exceptToken :=
        fun exceptToken => after.pushAll _ _
      dsimp only
      rw [← removed, ← pushed]
      split
      · exact ⟨rfl, after⟩
      · exact ⟨rfl, after⟩

/-- Every request works on the user's own things. -/
theorem keeps_handleRequest (has : Disk.HasUser root s.disk user) :
    Keeps root user s (handleRequest root user token r s) := by
  unfold handleRequest
  split
  · exact .of_silent [_]
  · exact .of_silent [_]
  · exact keeps_handleList
  · exact keeps_handleUpload valid has
  · exact keeps_handleDownload
  · exact keeps_handleDelete valid
  · exact .of_silent [_]

/-- Every request is answered from the user's own things. -/
theorem alike_handleRequest (same : Same root user s t) :
    Alike root user (handleRequest root user token r s) (handleRequest root user token r t) := by
  unfold handleRequest
  split
  · exact ⟨rfl, same⟩
  · exact ⟨rfl, same⟩
  · exact alike_handleList same
  · exact alike_handleUpload valid same
  · exact alike_handleDownload valid same
  · exact alike_handleDelete valid same
  · exact ⟨rfl, same⟩

theorem keeps_answer (token : Bytes) (has : Disk.HasUser root s.disk user) :
    Keeps root user s (answer root user token r s) := by
  unfold answer
  split
  · exact keeps_handleRequest valid has
  · exact .of_silent [_]

theorem alike_answer (token : Bytes) (same : Same root user s t) :
    Alike root user (answer root user token r s) (answer root user token r t) := by
  unfold answer
  split
  · exact alike_handleRequest valid same
  · exact ⟨rfl, same⟩

end Requests

/-! ## Steps -/

/-- Only the session of the connection that ends is removed. -/
theorem confined_closeSession {session : Session σ} (present : s.sessions[token]? = some session)
    (mine : session.user = user) : Confined root user s (closeSession token s).1 := by
  unfold closeSession
  rw [present]
  refine ⟨fun _ _ => rfl, fun _ _ => rfl, rfl, fun token' session' other => ?_⟩
  dsimp only
  rw [Map.getElem?_erase]
  split
  · rename_i same
    rw [same, present]
    refine ⟨nofun, fun eq => absurd ?_ other⟩
    rw [← Option.some.inj eq, mine]
  · exact Iff.rfl

/-- The end of a connection does the same in states that agree on the user. -/
theorem same_closeSession {session : Session σ} (same : Same root user s t)
    (left : s.sessions[token]? = some session) (right : t.sessions[token]? = some session) :
    (closeSession token s).2 = (closeSession token t).2 ∧
      Same root user (closeSession token s).1 (closeSession token t).1 := by
  unfold closeSession
  rw [left, right]
  refine ⟨rfl, same.left, same.right, same.tree, same.cache, same.account, ?_⟩
  refine ExtTreeMap.ext_getElem? fun token' => ?_
  have own := congrArg (fun sessions : ExtTreeMap Bytes (Session σ) => sessions[token']?)
    same.sessions
  simp only [getElem?_ownSessions] at own ⊢
  rw [Map.getElem?_erase, Map.getElem?_erase]
  split
  · rfl
  · exact own

/-- The sync connection shut down with it is the user's. -/
theorem own_closeSession {session : Session σ} (present : s.sessions[token]? = some session)
    (mine : session.user = user) {e : Effect σ} (mem : e ∈ (closeSession token s).2) :
    e.Own user s := by
  unfold closeSession at mem
  rw [present] at mem
  rcases List.mem_cons.mp mem with rfl | mem
  · exact ⟨session, ⟨mine, token, present⟩, .inr rfl⟩
  · obtain ⟨conn, sync, rfl⟩ := List.mem_map.mp mem
    exact ⟨session, ⟨mine, token, present⟩, .inl (Option.mem_toList.mp sync)⟩

/-- A turn of `serve_client` works on the user's own things. -/
theorem serve_confined (valid : isValidUsername user = true) (has : Disk.HasUser root s.disk user)
    {session : Session σ} (present : s.sessions[token]? = some session)
    (mine : session.user = user) :
    Confined root user s (serve root user token r s).1 ∧
      ∀ e ∈ (serve root user token r s).2, e.Own user s := by
  have keeps := keeps_answer (r := r) valid token has
  unfold serve
  dsimp only
  split
  · exact ⟨keeps.confined, keeps.own⟩
  · have still : (answer root user token r s).1.sessions[token]? = some session := by
      rw [keeps.sessions, present]
    refine ⟨keeps.confined.trans (confined_closeSession still mine), fun e mem => ?_⟩
    rcases List.mem_append.mp mem with sent | closed
    · exact keeps.own e sent
    · exact (own_closeSession still mine closed).congr keeps.sessions

/-- A turn of `serve_client` does the same in states that agree on the user. -/
theorem serve_alike (valid : isValidUsername user = true) (same : Same root user s t)
    {session : Session σ} (left : s.sessions[token]? = some session)
    (right : t.sessions[token]? = some session) :
    (serve root user token r s).2 = (serve root user token r t).2 ∧
      Same root user (serve root user token r s).1 (serve root user token r t).1 := by
  have alike := alike_answer (r := r) valid token same
  have before := keeps_answer (r := r) valid token same.left
  have before' := keeps_answer (r := r) valid token same.right
  unfold serve
  dsimp only
  rw [← alike.sent]
  split
  · exact ⟨rfl, alike.same⟩
  · have open_ : (answer root user token r s).1.sessions[token]? = some session := by
      rw [before.sessions, left]
    have open' : (answer root user token r t).1.sessions[token]? = some session := by
      rw [before'.sessions, right]
    have closed := same_closeSession alike.same open_ open'
    exact ⟨by rw [closed.1], closed.2⟩

theorem ownSessions_eq_some_iff {session : Session σ} :
    (s.ownSessions user)[token]? = some session ↔
      s.sessions[token]? = some session ∧ session.user = user := by
  rw [getElem?_ownSessions, Option.filter_eq_some_iff, decide_eq_true_eq]

/-- A step is that of one of the user's own sessions, or none. -/
theorem step_eq (root : Bytes) (s : State σ) (l : Label σ) :
    step root s l = match (s.ownSessions l.user)[l.token]? with
      | some _ => serve root l.user l.token l.request s
      | none => (s, []) := by
  unfold step
  rw [getElem?_ownSessions]
  cases s.sessions[l.token]? with
  | none => rfl
  | some session =>
    by_cases mine : session.user = l.user
    · simp only [if_pos mine, Option.filter_some, decide_eq_true mine, if_true]
    · simp only [if_neg mine, Option.filter_some, decide_eq_false mine,
        Bool.false_eq_true, if_false]

/-- Every step of a session is confined to its user. -/
theorem step_confined {l : Label σ} (logged : LoggedIn root s) :
    Confined root l.user s (step root s l).1 ∧ ∀ e ∈ (step root s l).2, e.Own l.user s := by
  rw [step_eq]
  split
  · rename_i session here
    obtain ⟨present, mine⟩ := ownSessions_eq_some_iff.mp here
    obtain ⟨valid, has⟩ := logged _ _ present
    rw [mine] at valid has
    exact serve_confined valid has present mine
  · exact ⟨.refl, nofun⟩

/-- No request opens a session. -/
theorem sessions_step {l : Label σ} (logged : LoggedIn root s) {token : Bytes} {session : Session σ}
    (present : (step root s l).1.sessions[token]? = some session) :
    s.sessions[token]? = some session := by
  rw [step_eq] at present
  split at present
  · rename_i session' here
    obtain ⟨open_, mine⟩ := ownSessions_eq_some_iff.mp here
    obtain ⟨valid, has⟩ := logged _ _ open_
    rw [mine] at valid has
    have keeps := keeps_answer (r := l.request) valid l.token has
    unfold serve at present
    dsimp only at present
    split at present
    · rwa [keeps.sessions] at present
    · unfold closeSession at present
      rw [keeps.sessions, open_] at present
      dsimp only at present
      rw [Map.getElem?_erase] at present
      split at present
      · cases present
      · exact present
  · exact present

/-- Users keep their directories in every step. -/
theorem LoggedIn.step {l : Label σ} (logged : LoggedIn root s) :
    LoggedIn root (step root s l).1 := by
  intro token session present
  obtain ⟨valid, has⟩ := logged token session (sessions_step logged present)
  exact ⟨valid, ((step_confined logged).1.disk _ (Disk.outside_userDir valid)).trans has⟩

/-- A user's own steps are determined by what the user has, and the steps of the
others leave it. -/
theorem unwinds (valid : isValidUsername user = true) :
    Unwinding.Unwinds (step (σ := σ) root) Label.user (LoggedIn root) user (Same root user) where
  symm := Same.symm
  trans := Same.trans
  invariant _ := LoggedIn.step
  own {s t l} mine _ _ same := by
    rw [step_eq, step_eq, mine, same.sessions]
    split
    · rename_i session here
      have here' := here
      rw [← same.sessions] at here'
      exact serve_alike valid same (ownSessions_eq_some_iff.mp here').1
        (ownSessions_eq_some_iff.mp here).1
    · exact ⟨rfl, same⟩
  other {s l} other logged same := by
    have confined := (step_confined (l := l) logged).1
    rw [step_eq] at confined ⊢
    split at confined
    · rename_i session here
      obtain ⟨present, mine⟩ := ownSessions_eq_some_iff.mp here
      obtain ⟨lValid, -⟩ := logged _ _ present
      rw [mine] at lValid
      exact confined.same lValid valid (Ne.symm other) same.left
    · exact same

end Handled

/-! ## The result -/

/-- Strictly below a directory: no component can lead back up. -/
def StrictlyBelow (dir path : Bytes) : Prop :=
  ∃ rest, path = dir ++ slash :: rest ∧
    ∀ c ∈ rest.splitOn slash, c ≠ [] ∧ c ≠ bytes "." ∧ c ≠ bytes ".."

/-- A valid path leads below the directory of its user. -/
theorem strictlyBelow_filePath {root user path : Bytes} (userValid : isValidUsername user = true)
    (pathValid : isValidPath path = true) :
    StrictlyBelow (userDir root user) (filePath root user path) := by
  refine ⟨path, filePath_eq userValid path, fun c mem => ?_⟩
  have names : isValidFileName c = true := by
    rw [splitOn_slash] at mem
    obtain ⟨p, inside, rfl⟩ := List.mem_map.mp mem
    exact (components_of_isValidPath pathValid).1 p inside
  refine ⟨?_, ?_, ?_⟩ <;> rintro rfl <;> cases names

section Runs

variable {σ : Type}

theorem Effect.Own.of_sessions {s t : State σ} {user : Bytes} {e : Effect σ} (own : e.Own user t)
    (sessions : ∀ (token : Bytes) (session : Session σ), t.sessions[token]? = some session →
      s.sessions[token]? = some session) : e.Own user s := by
  have older : ∀ session, t.IsOwn user session → s.IsOwn user session :=
    fun session ⟨mine, token, present⟩ => ⟨mine, token, sessions token session present⟩
  cases e with
  | reply => trivial
  | replicate change => cases change <;> exact own
  | push conn ms =>
    obtain ⟨session, mine, sync⟩ := own
    exact ⟨session, older session mine, sync⟩
  | shutdown conn =>
    obtain ⟨session, mine, conns⟩ := own
    exact ⟨session, older session mine, conns⟩

/-- The requests of one user change nothing of the others, in a whole run. -/
theorem confined_run {root user : Bytes} {s : State σ} (logged : LoggedIn root s)
    {requests : List (Label σ)} (mine : ∀ l ∈ requests, l.user = user) :
    Confined root user s (Unwinding.run (step root) Label.user s requests).1 ∧
      ∀ sent ∈ (Unwinding.run (step root) Label.user s requests).2, sent.2.Own user s := by
  induction requests generalizing s with
  | nil => exact ⟨.refl, nofun⟩
  | cons l requests ih =>
    obtain ⟨confined, own⟩ := step_confined (l := l) logged
    rw [mine l List.mem_cons_self] at confined own
    obtain ⟨rest, later⟩ := ih (logged.step (l := l)) fun l' mem =>
      mine l' (List.mem_cons_of_mem _ mem)
    refine ⟨confined.trans rest, fun sent mem => ?_⟩
    rcases List.mem_append.mp mem with now | then_
    · obtain ⟨e, listed, rfl⟩ := List.mem_map.mp now
      exact own e listed
    · exact (later sent then_).of_sessions fun _ _ => sessions_step logged

/-- **Users are isolated.** A file's full path is that of one user and one path,
and lies strictly below the user's directory. Two runs in which a user makes the
same requests, from states that agree on what the user has, send the user's
clients the same and end in states that agree on it, whatever the others have and
do. The user's own requests change nothing of the others, and push to the user's
own sync connections only. -/
theorem users_isolated :
    (∀ root user path u p, isValidUsername user = true → isValidUsername u = true →
      (filePath root user path = filePath root u p ↔ user = u ∧ path = p)) ∧
    (∀ root user path, isValidUsername user = true → isValidPath path = true →
      StrictlyBelow (userDir root user) (filePath root user path)) ∧
    ∀ (root user : Bytes) (s t : State σ), isValidUsername user = true → LoggedIn root s →
      LoggedIn root t → Same root user s t →
      (∀ as bs : List (Label σ), as.filter (·.user = user) = bs.filter (·.user = user) →
        let left := Unwinding.run (step root) Label.user s as
        let right := Unwinding.run (step root) Label.user t bs
        left.2.filter (·.1 = user) = right.2.filter (·.1 = user) ∧
          Same root user left.1 right.1) ∧
      ∀ requests : List (Label σ), (∀ l ∈ requests, l.user = user) →
        Confined root user s (Unwinding.run (step root) Label.user s requests).1 ∧
          ∀ sent ∈ (Unwinding.run (step root) Label.user s requests).2, sent.2.Own user s :=
  ⟨fun _ _ _ _ _ userValid uValid => filePath_inj userValid uValid,
    fun _ _ _ userValid pathValid => strictlyBelow_filePath userValid pathValid,
    fun _ _ _ _ valid left right same =>
      ⟨fun _ _ requests => Unwinding.noninterference (unwinds valid) left right same requests,
        fun _ mine => confined_run left mine⟩⟩

end Runs

section Examples

/-- A server with one client of the user `ana`, who has a file. -/
def served : State Nat where
  disk := (((∅ : Disk.Tree).mkdirs [bytes "d", bytes "d/users", bytes "d/users/ana"]).1.put
    (bytes "d/users/ana/x") (.single 1 5)).1
  cache := ∅
  accounts := ∅
  sessions := (∅ : ExtTreeMap Bytes (Session Nat)).insert (bytes "t") ⟨bytes "ana", 0, some 1⟩

/-- The same with another user's hash in the cache. -/
def servedBeside : State Nat where
  disk := served.disk
  cache := served.cache.insert (filePath (bytes "d") (bytes "bob") (bytes "y")) ⟨bytes "y", 1, 7, 3⟩
  accounts := served.accounts
  sessions := served.sessions

/-- The list of `ana` is the same on both. -/
theorem listed_beside :
    let list : Label Nat :=
      ⟨bytes "ana", bytes "t", ⟨⟨.listFiles, []⟩, true, .none, [], true, true, fun _ => false⟩⟩
    (Unwinding.run (step (bytes "d")) Label.user served [list]).2.filter (·.1 = bytes "ana") =
      (Unwinding.run (step (bytes "d")) Label.user servedBeside [list]).2.filter
        (·.1 = bytes "ana") := by
  intro list
  have has : Disk.HasUser (bytes "d") served.disk (bytes "ana") := by
    unfold Disk.HasUser
    decide +kernel
  have logged : LoggedIn (bytes "d") served := by
    intro token session present
    rw [served, Map.getElem?_insert] at present
    split at present
    · cases present
      exact ⟨by decide, has⟩
    · exact absurd present (by rw [ExtTreeMap.getElem?_empty]; nofun)
  have cached : ∀ p, served.cache[filePath (bytes "d") (bytes "ana") p]? =
      servedBeside.cache[filePath (bytes "d") (bytes "ana") p]? := by
    intro p
    rw [servedBeside, Map.getElem?_insert, if_neg]
    intro eq
    have users := ((filePath_inj (by decide) (by decide)).mp eq).1
    exact absurd users (by decide)
  have same : Same (bytes "d") (bytes "ana") served servedBeside :=
    ⟨has, has, rfl, cached, rfl, rfl⟩
  exact ((users_isolated.2.2 _ _ served servedBeside (by decide) logged logged same).1 [list] [list]
    rfl).1

end Examples

end SisOp.Isolation
