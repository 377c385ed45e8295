import SisOp.Cluster.Replication

/-!
# The replica links of a backup

Each connection that opens with `ReplicaAttach` is served by a thread of its own
(`handle_replica_attach`): it becomes the primary link, lists the files user by
user without the write mutex, sends the manifest, and applies what arrives. It
asks once for each message whether its link is still the primary link; receiving
the body of a `ReplPut` and waiting for the write mutex come after. The model
interleaves any number of such threads, the clients' changes a server took on
while it was the primary, and other listings. `σ` names the connections.

Main result: `determined_of_run`, from the moment a link attached the store is
what its manifest says, changed by the messages received on it, in every run that
attaches a link only while nobody else has a change of the files ahead, and lists
for its manifest only while the saved hashes are right.
-/

namespace SisOp

open Lib Std Function

/-! ## A message, up to where its thread waits -/

/-- What `apply_replicated` does once it has read a message. -/
inductive Work where
  | receive (user : Bytes) (info : FileInfo)
  | apply (change : Change)
  | setMembers (members : List ServerAddress)
  | reply
  | close

def dispatch (msg : Message) : Work :=
  match msg.type with
  | .replPut =>
    match readUserHeader.run msg.payload with
    | none => .close
    | some ((user, info), _) => .receive user info
  | .replDelete =>
    match readStrs.run msg.payload with
    | none => .close
    | some ((user, name), _) =>
      if isValidUsername user && isValidPath name then .apply (.delete user name) else .reply
  | .membership =>
    match readServers.run msg.payload with
    | none => .close
    | some (members, _) => .setMembers members
  | .replAccount =>
    match readStrs.run msg.payload with
    | none => .close
    | some ((user, record), _) => .apply (.account user record)
  | .heartbeat => .reply
  | _ => .close

/-- The body of a `ReplPut`: `none` when the connection is lost, and no change
when the file is refused. -/
def receiveFile (user : Bytes) (info : FileInfo) (body : List Message) : Option (Option Change) :=
  let (result, content, _) := recvFileBody info.size.toNat [] body
  if result = .connectionLost then none
  else if small : content.length < 2 ^ 63 then
    if result = .ok && isValidUsername user && isValidPath info.name then
      some (some (.put user info.name ⟨content, info.mtimeNs, small⟩))
    else some none
  else some none

/-- Nothing between the steps: the message is applied as `applyReplicated` says. -/
theorem applyReplicated_eq (b : Replica) (msg : Message) (body : List Message) :
    applyReplicated b msg body =
      match dispatch msg with
      | .receive user info =>
        match receiveFile user info body with
        | none => (b, none)
        | some none => (b, some .error)
        | some (some change) =>
          ((b.apply change).1, some (if (b.apply change).2 then .ok else .error))
      | .apply change => ((b.apply change).1, some (if (b.apply change).2 then .ok else .error))
      | .setMembers _ | .reply => (b, some .ok)
      | .close => (b, none) := by
  obtain ⟨type, payload⟩ := msg
  cases type with
  | replPut =>
    simp only [applyReplicated, dispatch]
    cases read : readUserHeader.run payload with
    | none => rfl
    | some parsed =>
      obtain ⟨⟨user, info⟩, rest⟩ := parsed
      simp only [receiveFile]
      split
      · rfl
      · split
        · split
          · rename_i accepted
            simp only [Bool.and_eq_true] at accepted
            simp only [Replica.apply, accepted.1.2, accepted.2, Bool.and_self, if_true]
            split <;> rfl
          · rfl
        · rfl
  | replDelete =>
    simp only [applyReplicated, dispatch]
    cases read : readStrs.run payload with
    | none => rfl
    | some parsed =>
      obtain ⟨⟨user, name⟩, rest⟩ := parsed
      dsimp only
      split
      · rename_i valid
        simp only [Replica.apply, if_pos valid, if_true]
      · rfl
  | membership =>
    simp only [applyReplicated, dispatch]
    cases readServers.run payload <;> rfl
  | replAccount =>
    simp only [applyReplicated, dispatch]
    cases read : readStrs.run payload with
    | none => rfl
    | some parsed =>
      obtain ⟨⟨user, record⟩, rest⟩ := parsed
      simp only [Replica.apply]
      split
      · split <;> rfl
      · rfl
  | _ => rfl

/-! ## A listing and what follows determine a listing -/

namespace Storage

/-- The part of the manifest that lists one user. -/
def entriesOf (s : Storage) (user : Bytes) : List (FileKey × FileInfo) :=
  (s.list user).map fun file => (⟨user, file.name⟩, file)

theorem exists_of_mem_entriesOf {s : Storage} {user : Bytes} {entry : FileKey × FileInfo}
    (mem : entry ∈ s.entriesOf user) : ∃ file,
      s.file? entry.1.user entry.1.name = some file ∧ entry.2 = file.info entry.1.name := by
  obtain ⟨info, listed, rfl⟩ := List.mem_map.mp mem
  obtain ⟨file, there, -, eq⟩ := mem_list_iff.mp listed
  exact ⟨file, there, eq⟩

/-- The store after changes, whatever came of each. -/
def changed (s : Storage) (changes : List Change) : Storage :=
  changes.foldl (fun t change => (t.change change).1) s

variable {s t : Storage}

theorem getElem?_fileMap_eq (valid : s.Valid) (key : FileKey) :
    s.fileMap[key]? = (s.file? key.user key.name).map fun file => file.info key.name := by
  refine Option.ext fun info => ?_
  rw [getElem?_fileMap valid, Option.map_eq_some_iff]
  simp only [eq_comm (a := info)]

theorem fileMap_eq_iff (sv : s.Valid) (tv : t.Valid) :
    s.fileMap = t.fileMap ↔ ∀ user name,
      (s.file? user name).map (fun file => file.info name) =
        (t.file? user name).map fun file => file.info name := by
  constructor
  · intro same user name
    rw [← getElem?_fileMap_eq sv ⟨user, name⟩, same, getElem?_fileMap_eq tv]
  · intro same
    refine ExtTreeMap.ext_getElem? fun key => ?_
    rw [getElem?_fileMap_eq sv, getElem?_fileMap_eq tv, same]

theorem fits_of_fileMap_eq (sv : s.Valid) (tv : t.Valid) (same : s.fileMap = t.fileMap)
    (user path : Bytes) : s.Fits user path ↔ t.Fits user path := by
  have absent : ∀ q, s.file? user q = none ↔ t.file? user q = none := fun q => by
    rw [← Option.map_eq_none_iff, (fileMap_eq_iff sv tv).mp same user q, Option.map_eq_none_iff]
  simp only [Fits, absent]

/-- Whether a change goes through, and what is listed afterwards, depends on
what was listed before. -/
theorem fileMap_change (sv : s.Valid) (tv : t.Valid) (same : s.fileMap = t.fileMap)
    (change : Change) : (s.change change).1.fileMap = (t.change change).1.fileMap := by
  have listed := (fileMap_eq_iff sv tv).mp same
  rw [fileMap_eq_iff (sv.change change) (tv.change change)]
  intro u p
  cases change with
  | put user name file =>
    simp only [Storage.change]
    split
    · have outcome : (s.commit user name file).2 = (t.commit user name file).2 := by
        rw [Bool.eq_iff_iff, commit_ok_iff, commit_ok_iff, fits_of_fileMap_eq sv tv same]
      cases ok : (t.commit user name file).2 with
      | true =>
        rw [file?_commit (outcome.trans ok), file?_commit ok]
        split
        · rfl
        · exact listed u p
      | false =>
        rw [file?_commit_of_fail (outcome.trans ok), file?_commit_of_fail ok]
        exact listed u p
    · exact listed u p
  | delete user name =>
    simp only [Storage.change]
    split
    · rw [file?_remove, file?_remove]
      split
      · rfl
      · exact listed u p
    · exact listed u p
  | account user record => exact listed u p

theorem Valid.changed (valid : s.Valid) (changes : List Change) : (s.changed changes).Valid := by
  induction changes generalizing s with
  | nil => exact valid
  | cons change changes ih => exact ih (valid.change change)

theorem fileMap_changed (sv : s.Valid) (tv : t.Valid) (same : s.fileMap = t.fileMap)
    (changes : List Change) : (s.changed changes).fileMap = (t.changed changes).fileMap := by
  induction changes generalizing s t with
  | nil => exact same
  | cons change changes ih =>
    exact ih (sv.change change) (tv.change change) (fileMap_change sv tv same change)

theorem changed_concat (changes : List Change) (change : Change) :
    s.changed (changes ++ [change]) = ((s.changed changes).change change).1 := by
  rw [changed, List.foldl_append]
  rfl

end Storage

/-- A manifest that fits a frame says which files are listed. -/
theorem fileMap_eq_of_manifest {a b : Replica} {manifest : Bytes} (av : a.storage.Valid)
    (bv : b.storage.Valid) (first : buildManifest a = some manifest)
    (second : buildManifest b = some manifest) (fits : sendable manifest = true) :
    a.storage.fileMap = b.storage.fileMap := by
  rw [sendable, decide_eq_true_eq] at fits
  have left := parses_manifest av first ((length_buildManifest av first).symm ▸ fits)
  have right := parses_manifest bv second ((length_buildManifest bv second).symm ▸ fits)
  have same := left.run_self.symm.trans right.run_self
  simp only [Option.some.injEq, Prod.mk.injEq, and_true] at same
  rw [Storage.fileMap, Storage.fileMap, same.2]

namespace Backup

/-! ## The threads -/

/-- Where the thread serving a connection is. -/
inductive Thread where
  | unused
  | listing (todo : List Bytes) (entries : List (FileKey × FileInfo))
  | built (manifest : Bytes)
  | serving
  | received (msg : Message)
  | receiving (user : Bytes) (info : FileInfo)
  | applying (change : Change)
  | updating (members : List ServerAddress)
  | replying
  | leaving
  | closed

/-- The thread is past its check and has a change of the files ahead. -/
def Thread.ahead : Thread → Bool
  | .receiving _ _ => true
  | .applying change => !change.isAccount
  | _ => false

/-- `hashes` is the cache, with the listings at work; `requests` are the clients'
changes that passed the check for a primary and wait for the write mutex. The other
fields only record: the link that attached last, unless the server became the primary
since; the files when it attached; the changes of the files since then, with the
connection each came on (`none` for a client's); and the manifests sent. -/
structure State (σ : Type) where
  server : Cluster σ
  replica : Replica
  hashes : Hashes
  thread : σ → Thread
  requests : List Change
  latest : Option σ
  start : Storage
  log : List (Option σ × Change)
  manifest : σ → Option Bytes

/-- `sent` says whether a send on the connection succeeds. -/
inductive Label (σ : Type) where
  | attach (i : σ) (primary : ServerAddress) (members : List ServerAddress)
  | list (i : σ)
  | look (listing : Listing)
  | sendManifest (i : σ) (sent : Bool)
  | receive (i : σ) (msg : Message)
  | check (i : σ)
  | body (i : σ) (frames : List Message)
  | apply (i : σ)
  | update (i : σ)
  | reply (i : σ) (sent : Bool)
  | hangUp (i : σ)
  | leave (i : σ)
  | becomePrimary
  | coordinator (leader : ServerAddress)
  | accept (change : Change)
  | commit (k : Nat)

section Step

variable {σ : Type} [DecidableEq σ]

def State.goTo (s : State σ) (i : σ) (next : Thread) : State σ :=
  { s with thread := update s.thread i next }

/-- A change by the thread of a connection, or of a client. -/
def State.change (s : State σ) (from? : Option σ) (change : Change) : State σ :=
  { s with replica := (s.replica.apply change).1
           hashes := s.hashes.forget s.replica.storage change
           log := if change.isAccount then s.log else s.log ++ [(from?, change)] }

/-- What `handle_replica_attach` does with a message, once its link is known to
be the primary link. -/
def Work.next : Work → Thread
  | .receive user info => .receiving user info
  | .apply change => .applying change
  | .setMembers members => .updating members
  | .reply => .replying
  | .close => .leaving

/-- A server before any replica link. -/
def init (server : Cluster σ) (replica : Replica) : State σ :=
  ⟨server, replica, ∅, fun _ => .unused, [], none, replica.storage, [], fun _ => none⟩

def step (s : State σ) : Label σ → Option (State σ)
  | .attach i primary members =>
    match s.thread i with
    | .unused =>
      some { s with server := s.server.replicaAttach i primary members
                    thread := update s.thread i (.listing s.replica.storage.users [])
                    latest := some i, start := s.replica.storage, log := []
                    manifest := update s.manifest i none }
    | _ => none
  | .list i =>
    match s.thread i with
    | .listing (user :: todo) entries =>
      let listed := s.hashes.report (s.replica.storage.entriesOf user)
      some ({ s with hashes := s.hashes.keep listed }.goTo i (.listing todo (entries ++ listed)))
    | .listing [] entries =>
      match writeManifest s.replica.accounts.all entries with
      | some manifest => some (s.goTo i (.built manifest))
      | none => some (s.goTo i .closed) -- the exception ends the thread
    | _ => none
  | .look listing =>
    (s.hashes.step s.replica.storage listing).map fun hashes => { s with hashes }
  | .sendManifest i sent =>
    match s.thread i with
    | .built manifest =>
      let s := { s with server := { s.server with buildingManifest := false } }
      if sent && sendable manifest then
        some { s.goTo i .serving with manifest := update s.manifest i (some manifest) }
      else some (s.goTo i .leaving)
    | _ => none
  | .receive i msg =>
    match s.thread i with
    | .serving => some (s.goTo i (.received msg))
    | _ => none
  | .check i =>
    match s.thread i with
    | .received msg =>
      if s.server.primaryLink = some i then some (s.goTo i (Work.next (dispatch msg)))
      else some (s.goTo i .leaving)
    | _ => none
  | .body i frames =>
    match s.thread i with
    | .receiving user info =>
      match receiveFile user info frames with
      | none => some (s.goTo i .leaving)
      | some none => some (s.goTo i .replying)
      | some (some change) => some (s.goTo i (.applying change))
    | _ => none
  | .apply i =>
    match s.thread i with
    | .applying change => some ((s.change (some i) change).goTo i .replying)
    | _ => none
  | .update i =>
    match s.thread i with
    | .updating members =>
      some ({ s with server := s.server.setMembers members }.goTo i .replying)
    | _ => none
  | .reply i sent =>
    match s.thread i with
    | .replying => some (s.goTo i (if sent then .serving else .leaving))
    | _ => none
  | .hangUp i =>
    match s.thread i with
    | .serving => some (s.goTo i .leaving)
    | _ => none
  | .leave i =>
    match s.thread i with
    | .leaving =>
      let lost := s.server.primaryLink = some i
      some ({ s with server.primaryLink := if lost then none else s.server.primaryLink }.goTo i
        .closed)
    | _ => none
  | .becomePrimary => some { s with server := s.server.becomePrimary.1, latest := none }
  | .coordinator leader =>
    if leader.id < s.server.self.id then some s
    else some { s with server := s.server.coordinator leader }
  | .accept change =>
    if s.server.role = .primary then some { s with requests := s.requests ++ [change] } else none
  | .commit k =>
    match s.requests[k]? with
    | some change => some { s.change none change with requests := s.requests.eraseIdx k }
    | none => none

end Step

/-! ## What the manifest and the link determine -/

section Safety

variable {σ : Type} [DecidableEq σ]

/-- A link is attached only while no thread of an older link, and no client,
has a change of the files ahead, and its thread lists the files only while no file
has a saved hash with its size and time that is not its own. -/
def Settled (s : State σ) : Label σ → Prop
  | .attach _ _ _ => s.requests = [] ∧ ∀ j, (s.thread j).ahead = false
  | .list i => s.latest = some i → s.hashes.Right s.replica.storage
  | _ => True

/-- The files came from the manifest's and from the messages on this link, and
a server with the same manifest would list the same files after them. -/
structure Determined (s : State σ) (link : σ) : Prop where
  onLink : ∀ entry ∈ s.log, entry.1 = some link
  store : s.replica.storage = s.start.changed (s.log.map Prod.snd)
  manifest : ∀ manifest, s.manifest link = some manifest →
    ∃ accounts, buildManifest ⟨s.start, accounts⟩ = some manifest
  determined : ∀ manifest (other : Replica), s.manifest link = some manifest →
    other.storage.Valid → buildManifest other = some manifest →
    (other.storage.changed (s.log.map Prod.snd)).fileMap = s.replica.storage.fileMap

/-- What is known from the moment a link attached. -/
structure Current (s : State σ) (link : σ) : Prop where
  role : s.server.role = .backup
  requests : s.requests = []
  valid : s.start.Valid
  onLink : ∀ entry ∈ s.log, entry.1 = some link
  store : s.replica.storage = s.start.changed (s.log.map Prod.snd)
  others : ∀ j, j ≠ link → (s.thread j).ahead = false
  listing : ∀ todo entries, s.thread link = .listing todo entries →
    s.log = [] ∧ entries ++ todo.flatMap s.start.entriesOf = s.start.entries
  built : ∀ manifest, s.thread link = .built manifest →
    s.log = [] ∧ ∃ accounts, buildManifest ⟨s.start, accounts⟩ = some manifest
  manifest : ∀ manifest, s.manifest link = some manifest →
    sendable manifest = true ∧ ∃ accounts, buildManifest ⟨s.start, accounts⟩ = some manifest

structure Inv (s : State σ) : Prop where
  valid : s.replica.storage.Valid
  latest : ∀ link, s.server.primaryLink = some link → s.latest = some link
  current : ∀ link, s.latest = some link → Current s link

variable {s s' : State σ} {i link : σ}

omit [DecidableEq σ] in
theorem Current.determined (current : Current s link) : Determined s link where
  onLink := current.onLink
  store := current.store
  manifest manifest sent := (current.manifest manifest sent).2
  determined manifest other sent valid same := by
    obtain ⟨fits, accounts, built⟩ := current.manifest manifest sent
    rw [current.store]
    exact Storage.fileMap_changed valid current.valid
      (fileMap_eq_of_manifest valid current.valid same built fits) _

/-- The thread of one connection moves and the files stay. -/
theorem Current.goTo (current : Current s link) {next : Thread}
    (behind : i ≠ link → next.ahead = false)
    (listing : i = link → ∀ todo entries, next = .listing todo entries →
      s.log = [] ∧ entries ++ todo.flatMap s.start.entriesOf = s.start.entries)
    (built : i = link → ∀ manifest, next = .built manifest →
      s.log = [] ∧ ∃ accounts, buildManifest ⟨s.start, accounts⟩ = some manifest) :
    Current (s.goTo i next) link where
  role := current.role
  requests := current.requests
  valid := current.valid
  onLink := current.onLink
  store := current.store
  others j other := by
    dsimp only [State.goTo]
    rcases eq_or_ne j i with rfl | apart
    · rw [update_self]
      exact behind other
    · rw [update_of_ne apart]
      exact current.others j other
  listing todo entries at_ := by
    dsimp only [State.goTo] at at_
    rcases eq_or_ne link i with rfl | apart
    · rw [update_self] at at_
      exact listing rfl todo entries at_
    · rw [update_of_ne apart] at at_
      exact current.listing todo entries at_
  built manifest at_ := by
    dsimp only [State.goTo] at at_
    rcases eq_or_ne link i with rfl | apart
    · rw [update_self] at at_
      exact built rfl manifest at_
    · rw [update_of_ne apart] at at_
      exact current.built manifest at_
  manifest := current.manifest

/-- Places in the loop without a change ahead. -/
def Thread.plain : Thread → Bool
  | .serving | .received _ | .updating _ | .replying | .leaving | .closed => true
  | _ => false

theorem Inv.goTo (inv : Inv s) {next : Thread} (plain : next.plain = true) :
    Inv (s.goTo i next) where
  valid := inv.valid
  latest := inv.latest
  current link held := by
    refine (inv.current link held).goTo (fun _ => ?_) (fun _ todo entries eq => ?_)
      (fun _ manifest eq => ?_)
    · cases next <;> first | rfl | cases plain
    · rw [eq] at plain
      cases plain
    · rw [eq] at plain
      cases plain

/-- The thread of the latest link may have a change ahead. -/
theorem Inv.goTo_of_current (inv : Inv s) (held : s.latest = some i) {next : Thread}
    (loops : next.plain = true ∨ next.ahead = true) : Inv (s.goTo i next) where
  valid := inv.valid
  latest := inv.latest
  current link here := by
    cases held.symm.trans here
    refine (inv.current i held).goTo (absurd rfl) (fun _ todo entries eq => ?_)
      (fun _ manifest eq => ?_)
    · rw [eq] at loops
      rcases loops with plain | ahead
      · cases plain
      · cases ahead
    · rw [eq] at loops
      rcases loops with plain | ahead
      · cases plain
      · cases ahead

omit [DecidableEq σ] in
/-- A change of the files comes from the thread of the latest link. -/
theorem Inv.change (inv : Inv s) {from? : Option σ} {change : Change}
    (mine : change.isAccount = false → ∀ link, s.latest = some link →
      from? = some link ∧ ∃ change, s.thread link = .applying change) :
    Inv (s.change from? change) where
  valid := by
    dsimp only [State.change]
    rw [(Replica.apply_storage _ _).1]
    exact inv.valid.change change
  latest := inv.latest
  current link held := by
    have current := inv.current link held
    cases kind : change.isAccount with
    | true =>
      have kept : (s.replica.apply change).1.storage = s.replica.storage := by
        rw [(Replica.apply_storage _ _).1, Storage.change_of_isAccount kind]
      have log : (s.change from? change).log = s.log := by rw [State.change, kind, if_pos rfl]
      exact { current with
        onLink := by rw [log]; exact current.onLink
        store := by rw [log]; exact kept.trans current.store
        listing := by rw [log]; exact current.listing
        built := by rw [log]; exact current.built }
    | false =>
      obtain ⟨rfl, last, applying⟩ := mine kind link held
      have log : (s.change (some link) change).log = s.log ++ [(some link, change)] := by
        rw [State.change, kind, if_neg Bool.false_ne_true]
      exact { current with
        onLink := by
          rw [log]
          intro entry mem
          rcases List.mem_append.mp mem with before | new
          · exact current.onLink entry before
          · rw [List.mem_singleton.mp new]
        store := by
          rw [log, List.map_append, List.map_singleton, Storage.changed_concat]
          dsimp only [State.change]
          rw [(Replica.apply_storage _ _).1, current.store]
        listing := fun todo entries at_ => by
          rw [State.change, applying] at at_
          cases at_
        built := fun manifest at_ => by
          rw [State.change, applying] at at_
          cases at_ }

omit [DecidableEq σ] in
/-- The primary link stays, or there is none, as long as no link attaches. -/
theorem Inv.setServer (inv : Inv s) (server : Cluster σ)
    (kept : server.primaryLink = none ∨ server.primaryLink = s.server.primaryLink)
    (role : s.server.role = .backup → server.role = .backup) : Inv { s with server } where
  valid := inv.valid
  latest link held := by
    rcases kept with gone | same
    · rw [gone] at held
      cases held
    · exact inv.latest link (same.symm.trans held)
  current link held := by
    have current := inv.current link held
    exact { current with role := role current.role }

theorem Inv.attach (inv : Inv s) {primary : ServerAddress} {members : List ServerAddress}
    (settled : s.requests = [] ∧ ∀ j, (s.thread j).ahead = false) :
    Inv { s with server := s.server.replicaAttach i primary members
                 thread := update s.thread i (.listing s.replica.storage.users [])
                 latest := some i, start := s.replica.storage, log := []
                 manifest := update s.manifest i none } where
  valid := inv.valid
  latest link held := held
  current link held := by
    cases held
    exact {
      role := rfl
      requests := settled.1
      valid := inv.valid
      onLink := fun entry mem => absurd mem List.not_mem_nil
      store := rfl
      others := fun j other => by
        dsimp only
        rw [update_of_ne other]
        exact settled.2 j
      listing := fun todo entries at_ => by
        dsimp only at at_
        rw [update_self] at at_
        cases at_
        exact ⟨rfl, rfl⟩
      built := fun manifest at_ => by
        dsimp only at at_
        rw [update_self] at at_
        cases at_
      manifest := fun manifest sent => by
        dsimp only at sent
        rw [update_self] at sent
        cases sent }

omit [DecidableEq σ] in
theorem Inv.setHashes (inv : Inv s) (hashes : Hashes) : Inv { s with hashes } where
  valid := inv.valid
  latest := inv.latest
  current link held := { inv.current link held with }

theorem Inv.list {todo : List Bytes} {entries : List (FileKey × FileInfo)} {user : Bytes}
    (inv : Inv s) (at_ : s.thread i = .listing (user :: todo) entries)
    (right : s.latest = some i → s.hashes.Right s.replica.storage) :
    Inv (s.goTo i (.listing todo
      (entries ++ s.hashes.report (s.replica.storage.entriesOf user)))) where
  valid := inv.valid
  latest := inv.latest
  current link held := by
    have current := inv.current link held
    refine current.goTo (fun _ => rfl) (fun same todo' entries' eq => ?_) (fun _ _ eq => nomatch eq)
    subst i
    cases eq
    obtain ⟨quiet, listed⟩ := current.listing _ _ at_
    have store := current.store
    rw [quiet] at store
    refine ⟨quiet, ?_⟩
    rw [Hashes.report_of_right (right held) fun _ => Storage.exists_of_mem_entriesOf,
      store, ← listed, List.flatMap_cons, List.append_assoc]
    rfl

theorem Inv.write {entries : List (FileKey × FileInfo)} {manifest : Bytes} (inv : Inv s)
    (at_ : s.thread i = .listing [] entries)
    (written : writeManifest s.replica.accounts.all entries = some manifest) :
    Inv (s.goTo i (.built manifest)) where
  valid := inv.valid
  latest := inv.latest
  current link held := by
    have current := inv.current link held
    refine current.goTo (fun _ => rfl) (fun _ _ _ eq => nomatch eq) (fun same manifest' eq => ?_)
    subst i
    cases eq
    obtain ⟨quiet, listed⟩ := current.listing _ _ at_
    rw [List.flatMap_nil, List.append_nil] at listed
    refine ⟨quiet, s.replica.accounts, ?_⟩
    rw [buildManifest, ← listed]
    exact written

theorem Inv.send {manifest : Bytes} (inv : Inv s) (at_ : s.thread i = .built manifest)
    (fits : sendable manifest = true) :
    Inv { s.goTo i .serving with manifest := update s.manifest i (some manifest) } where
  valid := inv.valid
  latest := inv.latest
  current link held := by
    have goes : Inv (s.goTo i .serving) := inv.goTo rfl
    have moved := goes.current link held
    exact { moved with
      manifest := fun sent eq => by
        dsimp only at eq
        rcases eq_or_ne link i with rfl | other
        · rw [update_self] at eq
          cases eq
          exact ⟨fits, ((inv.current link held).built manifest at_).2⟩
        · rw [update_of_ne other] at eq
          exact moved.manifest sent eq }

theorem Inv.check {msg : Message} (inv : Inv s) (primary : s.server.primaryLink = some i) :
    Inv (s.goTo i (Work.next (dispatch msg))) := by
  have held := inv.latest i primary
  cases work : dispatch msg with
  | receive user info => exact inv.goTo_of_current held (.inr rfl)
  | apply change =>
    cases kind : change.isAccount with
    | true =>
      refine ⟨inv.valid, inv.latest, fun link here => ?_⟩
      exact (inv.current link here).goTo (fun _ => by rw [Work.next, Thread.ahead, kind]; rfl)
        (fun _ _ _ eq => nomatch eq) (fun _ _ eq => nomatch eq)
    | false =>
      exact inv.goTo_of_current held (.inr (by rw [Work.next, Thread.ahead, kind]; rfl))
  | setMembers members => exact inv.goTo rfl
  | reply => exact inv.goTo rfl
  | close => exact inv.goTo rfl

/-- Once the body is in, the thread of the latest link waits to apply it; no
other thread was receiving one. -/
theorem Inv.receiveFile {user : Bytes} {info : FileInfo} {change : Change} (inv : Inv s)
    (at_ : s.thread i = .receiving user info) : Inv (s.goTo i (.applying change)) where
  valid := inv.valid
  latest := inv.latest
  current link held := by
    have current := inv.current link held
    refine current.goTo (fun other => ?_) (fun _ _ _ eq => nomatch eq) (fun _ _ eq => nomatch eq)
    have behind := current.others i other
    rw [at_] at behind
    cases behind

theorem Inv.apply {change : Change} (inv : Inv s) (at_ : s.thread i = .applying change) :
    Inv ((s.change (some i) change).goTo i .replying) := by
  refine (inv.change fun files link held => ?_).goTo rfl
  rcases eq_or_ne i link with rfl | other
  · exact ⟨rfl, change, at_⟩
  · have behind := (inv.current link held).others i other
    rw [at_, Thread.ahead, files] at behind
    cases behind

omit [DecidableEq σ] in
/-- A client's change waits only on a server that became the primary. -/
theorem Inv.commit {change : Change} {k : Nat} (inv : Inv s)
    (waits : s.requests[k]? = some change) :
    Inv { s.change none change with requests := s.requests.eraseIdx k } := by
  have unlinked : ∀ link, s.latest ≠ some link := by
    intro link held
    rw [(inv.current link held).requests] at waits
    cases waits
  have changed : Inv (s.change none change) :=
    inv.change fun _ link held => absurd held (unlinked link)
  exact ⟨changed.valid, inv.latest, fun link held => absurd held (unlinked link)⟩

theorem Inv.step {label : Label σ} (inv : Inv s) (settled : Settled s label)
    (stepped : Backup.step s label = some s') : Inv s' := by
  cases label with
  | attach i primary members =>
    simp only [Backup.step] at stepped
    split at stepped
    · cases stepped
      exact inv.attach settled
    · cases stepped
  | list i =>
    simp only [Backup.step] at stepped
    split at stepped
    · rename_i user todo entries at_
      cases stepped
      exact (inv.list at_ settled).setHashes _
    · rename_i entries at_
      split at stepped
      · rename_i manifest written
        cases stepped
        exact inv.write at_ written
      · cases stepped
        exact inv.goTo rfl
    · cases stepped
  | look listing =>
    obtain ⟨hashes, -, rfl⟩ := Option.map_eq_some_iff.mp stepped
    exact inv.setHashes hashes
  | sendManifest i sent =>
    simp only [Backup.step] at stepped
    split at stepped
    · rename_i manifest at_
      have cleared := inv.setServer { s.server with buildingManifest := false } (.inr rfl) id
      split at stepped
      · rename_i outcome
        rw [Bool.and_eq_true] at outcome
        cases stepped
        exact cleared.send at_ outcome.2
      · cases stepped
        exact cleared.goTo rfl
    · cases stepped
  | receive i msg =>
    simp only [Backup.step] at stepped
    split at stepped
    · cases stepped
      exact inv.goTo rfl
    · cases stepped
  | check i =>
    simp only [Backup.step] at stepped
    split at stepped
    · split at stepped
      · rename_i held
        cases stepped
        exact inv.check held
      · cases stepped
        exact inv.goTo rfl
    · cases stepped
  | body i frames =>
    simp only [Backup.step] at stepped
    split at stepped
    · rename_i user info at_
      split at stepped
      · cases stepped
        exact inv.goTo rfl
      · cases stepped
        exact inv.goTo rfl
      · cases stepped
        exact inv.receiveFile at_
    · cases stepped
  | apply i =>
    simp only [Backup.step] at stepped
    split at stepped
    · rename_i change at_
      cases stepped
      exact inv.apply at_
    · cases stepped
  | update i =>
    simp only [Backup.step] at stepped
    split at stepped
    · rename_i members at_
      cases stepped
      exact (inv.setServer (s.server.setMembers members) (.inr rfl) id).goTo rfl
    · cases stepped
  | reply i sent =>
    simp only [Backup.step] at stepped
    split at stepped
    · cases stepped
      refine inv.goTo ?_
      cases sent <;> rfl
    · cases stepped
  | hangUp i =>
    simp only [Backup.step] at stepped
    split at stepped
    · cases stepped
      exact inv.goTo rfl
    · cases stepped
  | leave i =>
    simp only [Backup.step] at stepped
    split at stepped
    · cases stepped
      have kept : Inv { s with server.primaryLink :=
          if s.server.primaryLink = some i then none else s.server.primaryLink } := by
        refine inv.setServer _ ?_ id
        dsimp only
        split
        · exact .inl rfl
        · exact .inr rfl
      exact kept.goTo rfl
    · cases stepped
  | becomePrimary =>
    cases stepped
    exact ⟨inv.valid, nofun, nofun⟩
  | coordinator leader =>
    simp only [Backup.step] at stepped
    split at stepped
    · cases stepped
      exact inv
    · cases stepped
      exact inv.setServer _ (.inr rfl) fun _ => rfl
  | accept change =>
    simp only [Backup.step] at stepped
    split at stepped
    · rename_i primary
      cases stepped
      refine ⟨inv.valid, inv.latest, fun link held => ?_⟩
      have backup := (inv.current link held).role
      rw [primary] at backup
      cases backup
    · cases stepped
  | commit k =>
    simp only [Backup.step] at stepped
    split at stepped
    · rename_i change waits
      cases stepped
      exact inv.commit waits
    · cases stepped

/-- **From the moment a link attached, the files come from it alone.** From any
server without a primary link, in every run that attaches a link only while no
thread of an older link is past its check with a change of the files ahead, and
no client's change is waiting, and that lists for its manifest only while the saved
hashes are right: until another link attaches or the server becomes
the primary, every change of the files since the link attached was received on
it, and its manifest with these changes determines what is stored. -/
theorem determined_of_run {server : Cluster σ} {replica : Replica}
    (unlinked : server.primaryLink = none) (valid : replica.storage.Valid)
    {labels : List (Label σ)} (settled : Meets Backup.step Settled (init server replica) labels)
    (ran : run Backup.step (init server replica) labels = some s)
    (held : s.latest = some link) : Determined s link := by
  have start : Inv (init server replica) := by
    refine ⟨valid, fun link here => ?_, nofun⟩
    rw [init, unlinked] at here
    cases here
  exact ((run_invariant (fun _ _ _ => Inv.step) start settled ran).current link held).determined

end Safety

/-! ## A link replaced while a file arrives -/

section Examples

/-- A backup with no files and two connections. -/
def emptyBackup : State Bool :=
  init ((Cluster.init (bytes "b") 4001).join 999 1000 (bytes "a") 4000) ⟨∅, ∅⟩

/-- The primary attaches a link; nothing is listed before the manifest goes out. -/
def attachLink (i : Bool) : List (Label Bool) :=
  [.attach i ⟨1000, bytes "a", 4000⟩ [⟨1000, bytes "a", 4000⟩], .list i, .sendManifest i true]

/-- Ana's file `x`, of one byte, is announced. -/
def announced (i : Bool) : List (Label Bool) :=
  [.receive i ⟨.replPut, (Writer.str (bytes "ana")).getD [] ++
    (writeFileHeader ⟨bytes "x", 1, 0, 0⟩).getD []⟩, .check i]

/-- The body arrives and the file is committed. -/
def committed (i : Bool) : List (Label Bool) := [.body i (bodyFrames [7]), .apply i]

/-- The new link's manifest is empty; then the old link's file is committed. -/
theorem changed_by_old_link :
    ¬∀ (σ : Type) [DecidableEq σ] (server : Cluster σ) (replica : Replica)
      (labels : List (Label σ)) (s : State σ) (link : σ), server.primaryLink = none →
      replica.storage.Valid → run step (init server replica) labels = some s →
      s.latest = some link → Determined s link := by
  intro claim
  obtain ⟨s, ran, held, log⟩ : ∃ s, run step emptyBackup
      (attachLink false ++ announced false ++ attachLink true ++ committed false) = some s ∧
        s.latest = some true ∧ s.log.map Prod.fst = [some false] :=
    ⟨_, rfl, rfl, rfl⟩
  have determined := claim Bool _ _ _ s true rfl Storage.valid_empty ran held
  obtain ⟨entry, mem, old⟩ : ∃ entry ∈ s.log, entry.1 = some false := by
    rw [← List.mem_map, log]
    exact List.mem_singleton_self _
  have new := determined.onLink entry mem
  rw [old] at new
  cases new

/-- Replaced before the message, the old link changes nothing. -/
theorem determined_of_replaced :
    ∃ s, run step emptyBackup (attachLink false ++ attachLink true ++ announced true ++
        committed true ++ announced false) = some s ∧
      s.log.map Prod.fst = [some true] ∧ Determined s true := by
  refine ⟨_, rfl, rfl, ?_⟩
  have ran : run step emptyBackup (attachLink false ++ attachLink true ++ announced true ++
    committed true ++ announced false) = some _ := rfl
  refine determined_of_run rfl Storage.valid_empty ?_ ran rfl
  refine ⟨⟨rfl, fun j => rfl⟩, fun _ => Hashes.right_of_empty _ [], trivial,
    ⟨rfl, fun j => ?_⟩, fun _ => Hashes.right_of_empty _ [], trivial, trivial, trivial, trivial,
    trivial, trivial, trivial, trivial⟩
  cases j <;> rfl

end Examples

end Backup

end SisOp
