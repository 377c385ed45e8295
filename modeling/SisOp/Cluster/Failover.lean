import SisOp.Cluster.Primaries
import SisOp.Cluster.Replication

/-!
# Acknowledged changes and failover, when servers only crash

The cluster of `SisOp.Cluster.Primaries` with what its servers store. A client's
change is accepted from the primary, and later stored under the write mutex and sent
over the links, whatever the server is by then; `attach_replica`, under the same mutex,
resyncs a backup and puts its link in `links_`. An exchange with a server that does
not serve the primary's link fails, any other may fail. A change that was sent over a
link that was lost, or by a primary that crashed, may be applied later. What is on
disk outlives the process, the cache of hashes does not.

Main result: `acknowledged_kept`, every running primary stores the latest
acknowledged version of each path, or one whose upload or delete came later, in
every run in which only servers take over whose link was in `links_` whenever a
change was acknowledged since they were last brought up to date, and no stale hash
is compared.
-/

namespace SisOp

open Lib Std Function

namespace Storage

/-- What `handle_upload` or `handle_delete` does to the store; no file deletes. -/
def edit (s : Storage) (user name : Bytes) : Option File → Storage × Bool
  | some file => s.commit user name file
  | none => s.remove user name

end Storage

/-- What is replicated of it. -/
def Change.ofEdit (user name : Bytes) : Option File → Change
  | some file => .put user name file
  | none => .delete user name

/-- What a change brings to a path. -/
def Change.Brings : Change → Bytes → Bytes → Option Bytes → Prop
  | .put user name file, u, p, version => u = user ∧ p = name ∧ version = some file.content
  | .delete user name, u, p, version => u = user ∧ p = name ∧ version = none
  | .account .., _, _, _ => False

namespace Storage

/-- The store has what the change brings. -/
def Copies (s : Storage) (c : Change) : Prop :=
  ∀ u p version, c.Brings u p version → s.content? u p = version

variable {s t : Storage} {user name u p : Bytes} {file : Option File} {c : Change}
  {K : Bytes → Prop}

theorem content?_edit (ok : (s.edit user name file).2 = true) (u p : Bytes) :
    (s.edit user name file).1.content? u p =
      if u = user ∧ p = name then file.map File.content else s.content? u p := by
  cases file with
  | some file => exact content?_commit ok u p
  | none => exact content?_remove s user name u p

theorem content?_edit_of_fail (failed : (s.edit user name file).2 = false) (u p : Bytes) :
    (s.edit user name file).1.content? u p = s.content? u p := by
  cases file with
  | some file => exact content?_commit_of_fail failed u p
  | none =>
    rw [content?, content?]
    exact congrArg (Option.map File.content) (file?_remove_of_fail failed u p)

theorem Valid.edit (valid : s.Valid) (userValid : isValidUsername user = true)
    (nameValid : isValidPath name = true) : (s.edit user name file).1.Valid := by
  cases file with
  | some file => exact valid.commit userValid nameValid
  | none => exact valid.remove

theorem Within.edit (within : s.Within K) (content : ∀ f, file = some f → K f.content) :
    (s.edit user name file).1.Within K := by
  cases file with
  | some file => exact within.commit (content file rfl)
  | none => exact within.remove

theorem brings_ofEdit {version : Option Bytes} : (Change.ofEdit user name file).Brings u p version ↔
    u = user ∧ p = name ∧ version = file.map File.content := by
  cases file <;> exact Iff.rfl

/-- The store has the change it was edited with. -/
theorem copies_ofEdit (content : s.content? user name = file.map File.content) :
    s.Copies (.ofEdit user name file) := by
  intro u p version brings
  obtain ⟨rfl, rfl, rfl⟩ := brings_ofEdit.mp brings
  exact content

theorem Within.of_copies (within : s.Within K) (copies : s.Copies c) : c.Within K := by
  cases c with
  | put user name file => exact within user name _ (copies _ _ _ ⟨rfl, rfl, rfl⟩)
  | delete | account => trivial

/-- Each path is left alone or gets what the change brings. -/
theorem content?_change (t : Storage) (c : Change) (u p : Bytes) :
    (t.change c).1.content? u p = t.content? u p ∨ c.Brings u p ((t.change c).1.content? u p) := by
  cases c with
  | put user name file =>
    simp only [Storage.change]
    split
    · cases ok : (t.commit user name file).2 with
      | true =>
        rw [content?_commit ok]
        split
        · rename_i here
          exact .inr ⟨here.1, here.2, rfl⟩
        · exact .inl rfl
      | false => exact .inl (content?_commit_of_fail ok u p)
    · exact .inl rfl
  | delete user name =>
    simp only [Storage.change]
    split
    · rw [content?_remove]
      split
      · rename_i here
        exact .inr ⟨here.1, here.2, rfl⟩
      · exact .inl rfl
    · exact .inl rfl
  | account => exact .inl rfl

/-- A replicated change that is answered with `Ok`. -/
theorem content?_change_ofEdit (userValid : isValidUsername user = true)
    (nameValid : isValidPath name = true) (ok : (t.change (.ofEdit user name file)).2 = true)
    (u p : Bytes) : (t.change (.ofEdit user name file)).1.content? u p =
      if u = user ∧ p = name then file.map File.content else t.content? u p := by
  cases file with
  | some file =>
    simp only [Change.ofEdit, Storage.change, userValid, nameValid, Bool.and_self, if_true] at ok ⊢
    exact content?_commit ok u p
  | none =>
    simp only [Change.ofEdit, Storage.change, userValid, nameValid, Bool.and_self, if_true]
    exact content?_remove t user name u p

/-- It touches no other path. -/
theorem content?_change_of_ne (other : ¬(u = user ∧ p = name)) :
    (t.change (.ofEdit user name file)).1.content? u p = t.content? u p := by
  refine (content?_change t _ u p).resolve_right fun brings => other ?_
  obtain ⟨here, there, -⟩ := brings_ofEdit.mp brings
  exact ⟨here, there⟩

/-- A resync only sends what the primary has. -/
theorem copies_of_mem_resyncChanges {primary b : Replica} (pv : primary.storage.Valid)
    (bv : b.storage.Valid)
    (mem : c ∈ resyncChanges primary primary.storage.entries b.accounts.all b.storage.entries) :
    primary.storage.Copies c := by
  simp only [resyncChanges, List.mem_append, List.mem_map, List.mem_filterMap,
    Option.map_eq_some_iff] at mem
  rcases mem with ⟨account, -, rfl⟩ | ⟨entry, -, f, present, rfl⟩ | ⟨entry, listed, rfl⟩
  · exact fun _ _ _ brings => brings.elim
  · rintro u p version ⟨rfl, rfl, rfl⟩
    exact congrArg (Option.map File.content) present
  · obtain ⟨g, -, -, absent⟩ := (mem_filesToDelete_iff pv bv).mp listed
    rintro u p version ⟨rfl, rfl, rfl⟩
    exact congrArg (Option.map File.content) absent

end Storage

namespace Failover

open Ids Primaries

/-- Where the thread of a server that holds the write mutex is: in
`attach_replica`, or behind a change of the store. -/
inductive Writer where
  | free
  | requesting (member : ServerAddress) (locals : List (FileKey × FileInfo))
  | attached (member : ServerAddress) (locals : List (FileKey × FileInfo))
  | resyncing (member : ServerAddress) (todo : List Change)
  | replicating (user name : Bytes) (file : Option File) (todo : List (UInt32 × Address))
      (failed : List UInt32)
  | dropping (user name : Bytes) (failed : List UInt32)

/-- The thread is in `attach_replica` for this member. -/
def Writer.attaches : Writer → ServerAddress → Bool
  | .requesting m _, member | .attached m _, member | .resyncing m _, member =>
    decide (m = member)
  | _, _ => false

/-- A change of a client that a server has taken on and not yet stored; no file
deletes. -/
structure Request where
  server : Address
  user : Bytes
  name : Bytes
  file : Option File

/-- `cut` says that the link of a server's primary is lost; `late` holds changes sent
over such a link, or by servers that have crashed. `history` and `current` only record:
the version of a path that was acknowledged last and the ones that came later (`none`
for a deletion), and which servers the primary had a link to when a change was last
acknowledged. -/
structure State where
  control : Primaries.State
  disk : Address → Replica
  hashes : Address → Hashes
  accepted : List Request
  writer : Address → Writer
  cut : Address → Bool
  late : List (Address × Change)
  history : Bytes → Bytes → Option (List (Option Bytes))
  current : Address → Bool

inductive Label where
  | control (label : Primaries.Label)
  | accept (request : Request)
  | write (k : Nat)
  | proceed (p : Address)
  | fail (p : Address) (reached : Bool)
  | attached (k : Nat) (ok : Bool)
  | deliver (k : Nat)
  | abort (k : Nat)
  | look (a : Address) (listing : Listing)

def init (a : Address) (disk : Address → Replica) : State where
  control := Primaries.init a
  disk := disk
  hashes _ := ∅
  accepted := []
  writer _ := .free
  cut _ := false
  late := []
  history _ _ := none
  current _ := true

namespace State

def setWriter (s : State) (p : Address) (writer : Writer) : State :=
  { s with writer := update s.writer p writer }

/-- The server at `b` runs and has a link from `p`. -/
def serves (s : State) (b p : Address) : Bool :=
  match s.control.cluster.server b with
  | some server => decide (server.cluster.primaryLink = some p) && !s.cut b
  | none => false

/-- The server at `p` has a link to `b`. -/
def linked (s : State) (p b : Address) : Bool :=
  match s.control.cluster.server p with
  | some server => server.cluster.links.toList.any fun link => decide (link.2 = b)
  | none => false

/-- The server at `b` applies a change. -/
def applyOn (s : State) (b : Address) (change : Change) : State :=
  { s with disk := update s.disk b ((s.disk b).apply change).1
           hashes := update s.hashes b ((s.hashes b).forget (s.disk b).storage change) }

/-- The files of a server as it lists them to be compared, -/
def listed (s : State) (b : Address) : List (FileKey × FileInfo) :=
  (s.hashes b).report (s.disk b).storage.entries

/-- and the cache after that. -/
def keepListed (s : State) (b : Address) : Address → Hashes :=
  update s.hashes b ((s.hashes b).keep (s.listed b))

/-- `put_on_link`, `delete_on_link` or `account_on_link`: the state afterwards
and what is returned. -/
def exchange (s : State) (p b : Address) (change : Change) : State × Bool :=
  if s.serves b p then (s.applyOn b change, ((s.disk b).apply change).2) else (s, false)

/-- The change is acknowledged. -/
def acknowledge (s : State) (p : Address) (user name : Bytes) : State :=
  { s with writer := update s.writer p .free
           history := fun u q =>
             if u = user ∧ q = name then some [(s.disk p).storage.content? user name]
             else s.history u q
           current := fun b => decide (b = p) || s.linked p b }

/-- The versions of a path, with one that comes after them. -/
def recorded (s : State) (user name : Bytes) (version : Option Bytes) (u q : Bytes) :
    Option (List (Option Bytes)) :=
  if u = user ∧ q = name then (s.history u q).map fun versions => versions ++ [version]
  else s.history u q

/-- The only check of the role: the server takes the change on, from a session with a
valid user, when the name is valid. -/
def accept (s : State) (request : Request) : Option State :=
  match s.control.cluster.server request.server with
  | some ⟨c, _⟩ =>
    if c.role = .primary ∧ isValidUsername request.user = true ∧
        isValidPath request.name = true then
      some { s with accepted := s.accepted ++ [request] }
    else none
  | none => none

/-- `handle_upload` or `handle_delete` in its critical section, up to the replication. -/
def write (s : State) (p : Address) (user name : Bytes) (file : Option File) : Option State :=
  match s.control.cluster.server p, s.writer p with
  | some ⟨c, _⟩, .free =>
    let (storage, ok) := (s.disk p).storage.edit user name file
    let s := { s with
      disk := update s.disk p { s.disk p with storage }
      hashes := update s.hashes p
        ((s.hashes p).forget (s.disk p).storage (.ofEdit user name file)) }
    if ok then
      some { s with
        writer := update s.writer p (.replicating user name file c.links.toList [])
        history := s.recorded user name (file.map File.content) }
    else some s
  | _, _ => none

/-- An exchange fails. When the server had the change, its thread may still apply it,
and then finds the link lost. -/
def lose (s : State) (p b : Address) (change : Change) (reached : Bool) : Option State :=
  if reached then
    if s.serves b p then
      some { s with cut := update s.cut b true, late := s.late ++ [(b, change)] }
    else none
  else some s

/-- The exchange under way on `p` fails. -/
def fail (s : State) (p : Address) (reached : Bool) : Option State :=
  match s.writer p with
  | .resyncing member (change :: _) =>
    (s.lose p (addressOf member) change reached).map fun s => s.setWriter p .free
  | .replicating user name file (link :: todo) failed =>
    (s.lose p link.2 (.ofEdit user name file) reached).map fun s =>
      s.setWriter p (.replicating user name file todo (failed ++ [link.1]))
  | _ => none

/-- The manifest arrives, and what to send is compared with it. -/
def afterManifest (s : State) (p : Address) (member : ServerAddress)
    (locals : List (FileKey × FileInfo)) : Writer :=
  match writeManifest (s.disk (addressOf member)).accounts.all (s.listed (addressOf member)) with
  | none => .free
  | some manifest =>
    if sendable manifest then
      match readManifest.run manifest with
      | none => .free
      | some ((accounts, files), _) =>
        .resyncing member (resyncChanges (s.disk p) locals accounts files)
    else .free

/-- The thread that holds the write mutex goes on. -/
def proceed (s : State) (p : Address) : Option State :=
  match s.writer p with
  | .free | .requesting .. | .resyncing _ [] => none
  | .attached member locals =>
    if s.serves (addressOf member) p then
      some ({ s with hashes := s.keepListed (addressOf member) }.setWriter p
        (s.afterManifest p member locals))
    else none
  | .resyncing member (change :: todo) =>
    if change.writable then
      let (s, ok) := s.exchange p (addressOf member) change
      some (s.setWriter p (if ok then .resyncing member todo else .free))
    else some (s.setWriter p .free) -- the writer throws
  | .replicating user name file (link :: todo) failed =>
    let (s, ok) := s.exchange p link.2 (.ofEdit user name file)
    some (s.setWriter p (.replicating user name file todo
      (if ok then failed else failed ++ [link.1])))
  | .replicating user name _ [] failed => some (s.setWriter p (.dropping user name failed))
  | .dropping user name (id :: failed) =>
    -- another thread may have dropped it before
    let control := (Primaries.step s.control (.cluster (.drop p id))).getD s.control
    some ({ s with control }.setWriter p (.dropping user name failed))
  | .dropping user name [] => some (s.acknowledge p user name)

/-- What a step of the cluster means for the threads with a write mutex: the files
are listed and a `ReplicaAttach` is sent under it, the backup handles it, the process
ends. -/
def writers (s : State) : Primaries.Label → Option (Address → Writer)
  | .cluster (.attach k) =>
    match s.control.cluster.attaching[k]? with
    | none => none
    | some (p, member) =>
      match s.writer p with
      | .free => some (update s.writer p (.requesting member (s.listed p)))
      | _ => none
  | .cluster (.attached ..) => none
  | .cluster (.receive k) =>
    match s.control.cluster.sent[k]? with
    | some ⟨sender, receiver, .attach ..⟩ =>
      match s.control.cluster.server receiver, s.writer sender with
      | some _, .requesting member locals =>
        if addressOf member = receiver then
          some (update s.writer sender (.attached member locals))
        else some s.writer
      | _, _ => some s.writer
    | _ => some s.writer
  | .cluster (.crash a) => some (update s.writer a .free)
  | _ => some s.writer

/-- The caches, after a step of the cluster. -/
def hashesAfter (s : State) : Primaries.Label → Address → Hashes
  | .cluster (.attach k) =>
    match s.control.cluster.attaching[k]? with
    | some (p, _) => s.keepListed p
    | none => s.hashes
  | .cluster (.crash a) => update s.hashes a ∅
  | _ => s.hashes

/-- The exchange a server is in, when the other one still serves its link. -/
def underWay (s : State) (a : Address) : List (Address × Change) :=
  let exchange := match s.writer a with
    | .resyncing member (change :: _) => [(addressOf member, change)]
    | .replicating user name file (link :: _) _ => [(link.2, Change.ofEdit user name file)]
    | _ => []
  exchange.filter fun sent => s.serves sent.1 a

/-- What may still be applied, after a step of the cluster. -/
def lateAfter (s : State) : Primaries.Label → List (Address × Change)
  | .cluster (.crash a) => (s.underWay a ++ s.late).filter fun sent => sent.1 ≠ a
  | _ => s.late

/-- Which links are lost, after a step of the cluster: a `ReplicaAttach` brings a new one. -/
def cutAfter (s : State) : Primaries.Label → Address → Bool
  | .cluster (.receive k) =>
    match s.control.cluster.sent[k]? with
    | some ⟨_, receiver, .attach ..⟩ => update s.cut receiver false
    | _ => s.cut
  | _ => s.cut

/-- The changes that are still to be stored, after a step of the cluster. -/
def acceptedAfter (s : State) : Primaries.Label → List Request
  | .cluster (.crash a) => s.accepted.filter fun request => request.server ≠ a
  | _ => s.accepted

end State

def step (s : State) : Label → Option State
  | .control label =>
    match s.writers label, Primaries.step s.control label with
    | some writer, some control =>
      some { s with control, writer, hashes := s.hashesAfter label
                    accepted := s.acceptedAfter label
                    cut := s.cutAfter label, late := s.lateAfter label }
    | _, _ => none
  | .accept request => s.accept request
  | .write k =>
    match s.accepted[k]? with
    | none => none
    | some request =>
      { s with accepted := s.accepted.eraseIdx k }.write request.server request.user request.name
        request.file
  | .proceed p => s.proceed p
  | .fail p reached => s.fail p reached
  | .attached k ok =>
    match s.control.cluster.attaching[k]?, Primaries.step s.control (.cluster (.attached k ok)) with
    | some (p, member), some control =>
      match ok, s.writer p with
      | true, .resyncing m [] =>
        if m = member then some ({ s with control }.setWriter p .free) else none
      | true, _ => none
      | false, writer =>
        -- it may have failed before it had the mutex, or given it back
        some ({ s with control }.setWriter p (if writer.attaches member then .free else writer))
    | _, _ => none
  | .deliver k =>
    match s.late[k]? with
    | none => none
    | some (b, change) => some { s.applyOn b change with late := s.late.eraseIdx k }
  | .abort k => if k < s.late.length then some { s with late := s.late.eraseIdx k } else none
  | .look a listing =>
    match s.control.cluster.server a with
    | none => none
    | some _ => ((s.hashes a).step (s.disk a).storage listing).map fun hashes =>
      { s with hashes := update s.hashes a hashes }

/-- Messages between running servers arrive, and a call fails only when the
other server has crashed. -/
def CrashOnly (s : State) : Label → Prop
  | .control label => Primaries.CrashOnly s.control label
  | .attached k ok => Primaries.CrashOnly s.control (.cluster (.attached k ok))
  | .fail .. => False
  | _ => True

/-! ## What the servers have to be -/

/-- Nothing that was sent to the server before is still to be applied. -/
def State.Settled (s : State) (a : Address) : Prop := ∀ sent ∈ s.late, sent.1 ≠ a

/-- The thread of `handle_election` that reassures a backup, before it calls
`attach_replica`. -/
def Reassures : Task → Prop
  | .reassure _ | .adopt _ => True
  | _ => False

/-- A `handle_join` of the server has an id to record, or it calls `attach_replica`,
or is to reassure a backup. -/
def Busy (s : Ids.State) (a : Address) : Prop :=
  (∃ call ∈ s.attaching, call.1 = a) ∨ (∃ o ∈ s.joining, o.granter = a) ∨
    ∃ task ∈ s.tasks, Reassures task.2 ∧ task.1 = a

/-- The server takes nothing in: it has no change to store, no thread has its write
mutex, and it is not `Busy`. -/
def State.Resting (s : State) (p : Address) : Prop :=
  s.writer p = .free ∧ (∀ request ∈ s.accepted, request.server ≠ p) ∧ ¬Busy s.control.cluster p

/-- The server, if it is the primary, rests. -/
def State.Idle (s : State) (a : Address) : Prop :=
  ∀ server, s.control.cluster.server a = some server → server.cluster.role = .primary →
    s.Resting a

/-- A server takes over when it had a link whenever a change was acknowledged, has
nothing left to apply, and no primary runs; none handles a `ReplicaAttach` while it
has something left to apply; a primary steps down only when it is idle, and gets no
`JoinOk`; where files are listed to be compared, none has a saved hash with its size
and time that is not its own; and the contents uploaded are in `K`. -/
def Careful (K : Bytes → Prop) (s : State) : Label → Prop
  | .control (.decide a) => ∀ r, s.control.round a = some r → r.todo = [] → r.higherAlive = false →
      s.current a = true ∧ s.Settled a ∧ ∀ b server, s.control.cluster.server b = some server →
        server.cluster.role ≠ .primary
  | .control (.cluster (.attach k)) => ∀ p member,
      s.control.cluster.attaching[k]? = some (p, member) → (s.hashes p).Right (s.disk p).storage
  | .proceed p => ∀ member locals, s.writer p = .attached member locals →
      (s.hashes (addressOf member)).Right (s.disk (addressOf member)).storage
  | .control (.cluster (.receive k)) => ∀ e, s.control.cluster.sent[k]? = some e →
      match e.content with
      | .attach .. => s.Settled e.receiver ∧ s.Idle e.receiver
      | .joinOk .. => ∀ server, s.control.cluster.server e.receiver = some server →
          server.cluster.role ≠ .primary
      | _ => True
  | .control (.cluster (.perform k)) => ∀ a me leader,
      s.control.cluster.tasks[k]? = some (a, .follow me leader) → s.Idle a
  | .accept request => ∀ file, request.file = some file → K file.content
  | _ => True

/-- The store has, of every path with an acknowledged change, the version of the
latest one, or one that came later. -/
def State.Holds (s : State) (storage : Storage) : Prop :=
  ∀ user path versions, s.history user path = some versions → storage.content? user path ∈ versions

/-- Every running primary holds what was acknowledged. -/
def Durable (s : State) : Prop :=
  ∀ a server, s.control.cluster.server a = some server → server.cluster.role = .primary →
    s.Holds (s.disk a).storage

/-! ## Servers and their links -/

/-- A server that is not the primary has no links, the primary is linked to none. -/
def Sober (c : Cluster Address) : Prop :=
  (c.role ≠ .primary → c.links = ∅) ∧ (c.role = .primary → c.primaryLink = none)

/-- Every running server is sober, only primaries are busy, and there is at most one. -/
structure Base (s : Ids.State) : Prop where
  sober : ∀ a server, s.server a = some server → Sober server.cluster
  busy : ∀ a, Busy s a → ∃ server, s.server a = some server ∧ server.cluster.role = .primary
  only : ∀ a b server other, s.server a = some server → s.server b = some other →
    server.cluster.role = .primary → other.cluster.role = .primary → a = b

/-- The primaries are those before, the `free` ones apart, with some of their links. -/
structure Moves (free : Address → Prop) (s s' : Ids.State) : Prop extends Base s' where
  fewer : ∀ p server', s'.server p = some server' → server'.cluster.role = .primary →
    ∃ server, s.server p = some server ∧ server.cluster.role = .primary ∧
      ∀ (id : UInt32) b, server'.cluster.links[id]? = some b → server.cluster.links[id]? = some b
  stays : ∀ p server, s.server p = some server → server.cluster.role = .primary → ¬free p →
    ∃ server', s'.server p = some server' ∧ server'.cluster.role = .primary

section Base

variable {free : Address → Prop} {s s' t : Ids.State} {a : Address} {c c' : Cluster Address}
variable {since since' : Nat}

/-- The primary is as busy as before, or calls `attach_replica`. -/
theorem busy_attach {members : List ServerAddress} {p : Address}
    (busy : Busy (t.attach a members) p) : Busy t p ∨ p = a ∧ members ≠ [] := by
  rcases busy with ⟨call, mem, rfl⟩ | rest
  · rcases List.mem_append.mp mem with old | new
    · exact .inl (.inl ⟨call, old, rfl⟩)
    · obtain ⟨m, called, rfl⟩ := List.mem_map.mp new
      exact .inr ⟨rfl, List.ne_nil_of_mem called⟩
  · exact .inl (.inr rest)

theorem busy_leave {tasks : List Task} {p : Address} (busy : Busy (t.leave a tasks) p) :
    Busy t p ∨ p = a ∧ ∃ task ∈ tasks, Reassures task := by
  rcases busy with calls | offers | ⟨task, mem, reassures, rfl⟩
  · exact .inl (.inl calls)
  · exact .inl (.inr (.inl offers))
  · rcases List.mem_append.mp mem with old | new
    · exact .inl (.inr (.inr ⟨task, old, reassures, rfl⟩))
    · obtain ⟨next, left, rfl⟩ := List.mem_map.mp new
      exact .inr ⟨rfl, next, left, reassures⟩

/-- A thread that does not reassure a backup makes nobody busy. -/
theorem busy_leave_of_quiet {tasks : List Task} {p : Address} (busy : Busy (t.leave a tasks) p)
    (quiet : ∀ task ∈ tasks, ¬Reassures task) : Busy t p :=
  (busy_leave busy).resolve_right fun ⟨_, task, mem, reassures⟩ => quiet task mem reassures

theorem busy_eraseIdx {k : Nat} {p : Address}
    (busy : Busy { t with attaching := t.attaching.eraseIdx k } p) : Busy t p :=
  busy.imp_left fun ⟨call, mem, own⟩ => ⟨call, List.mem_of_mem_eraseIdx mem, own⟩

theorem busy_performed {k : Nat} {p : Address}
    (busy : Busy { t with tasks := t.tasks.eraseIdx k } p) : Busy t p :=
  busy.imp_right fun rest => rest.imp_right fun ⟨task, mem, own⟩ =>
    ⟨task, List.mem_of_mem_eraseIdx mem, own⟩

theorem Moves.of_same (base : Base s) (same : s'.server = s.server)
    (busy : ∀ a, Busy s' a → Busy s a) : Moves free s s' where
  sober a server running := base.sober a server (same ▸ running)
  busy a work := by
    rw [same]
    exact base.busy a (busy a work)
  only a b server other running running' :=
    base.only a b server other (same ▸ running) (same ▸ running')
  fewer p server running role := ⟨server, same ▸ running, role, fun _ _ => id⟩
  stays p server running role _ := ⟨server, same ▸ running, role⟩

theorem Moves.trans (first : Moves free s s') (second : Moves free s' t) : Moves free s t where
  toBase := second.toBase
  fewer p server running role := by
    obtain ⟨between, running, role, fewer⟩ := second.fewer p server running role
    obtain ⟨before, running, role, fewer'⟩ := first.fewer p between running role
    exact ⟨before, running, role, fun id b linked => fewer' id b (fewer id b linked)⟩
  stays p server running role busy := by
    obtain ⟨between, running, role⟩ := first.stays p server running role busy
    exact second.stays p between running role busy

/-- A server changes, and may become the primary when no other is. -/
theorem Base.put (base : Base s) (sober : Sober c')
    (alone : c'.role = .primary → ∀ b other, b ≠ a → s.server b = some other →
      other.cluster.role ≠ .primary)
    (same : t.server = (s.put a ⟨c', since'⟩).server)
    (busy : ∀ p, Busy t p → Busy s p ∧ p ≠ a ∨ p = a ∧ c'.role = .primary) : Base t where
  sober b other running := by
    rcases put_cases same running with ⟨-, rfl⟩ | ⟨-, was⟩
    · exact sober
    · exact base.sober b other was
  busy p work := by
    rcases busy p work with ⟨old, away⟩ | ⟨here, role⟩
    · rw [put_of_ne same away]
      exact base.busy p old
    · rw [here]
      exact ⟨_, put_self same, role⟩
  only b d server other running running' role role' := by
    rcases put_cases same running with ⟨rfl, rfl⟩ | ⟨away, was⟩ <;>
      rcases put_cases same running' with ⟨rfl, rfl⟩ | ⟨away', was'⟩
    · rfl
    · exact absurd role' (alone role d other away' was')
    · exact absurd role (alone role' b server away was)
    · exact base.only b d server other was was' role role'

/-- A server changes that stays what it is. -/
theorem Base.keep (base : Base s) (running : s.server a = some ⟨c, since⟩)
    (same : t.server = (s.put a ⟨c', since'⟩).server) (role : c'.role = c.role)
    (link : c'.primaryLink = c.primaryLink) (empty : c.links = ∅ → c'.links = ∅)
    (fewer : ∀ (id : UInt32) b, c'.links[id]? = some b → c.links[id]? = some b)
    (busy : ∀ p, Busy t p → Busy s p ∨ p = a ∧ c.role = .primary) : Moves free s t where
  toBase := by
    obtain ⟨backup, leads⟩ := base.sober a _ running
    refine base.put ⟨fun away => empty (backup (role ▸ away)), fun lead =>
      link.trans (leads (role ▸ lead))⟩ (fun leads b other away was role' => ?_) same
        fun p work => ?_
    · exact away (base.only b a other _ was running role' (role.symm.trans leads))
    · by_cases here : p = a
      · refine .inr ⟨here, role.trans ?_⟩
        rcases busy p work with old | ⟨-, leads⟩
        · obtain ⟨server, found, leads⟩ := base.busy p old
          rw [here, running] at found
          cases found
          exact leads
        · exact leads
      · exact .inl ⟨(busy p work).resolve_right fun ⟨own, _⟩ => here own, here⟩
  fewer b server found leads := by
    rcases put_cases same found with ⟨rfl, rfl⟩ | ⟨-, was⟩
    · exact ⟨_, running, role.symm.trans leads, fewer⟩
    · exact ⟨server, was, leads, fun _ _ => id⟩
  stays b server found leads _ := by
    by_cases here : b = a
    · subst here
      cases running.symm.trans found
      exact ⟨_, put_self same, role.trans leads⟩
    · exact ⟨server, (put_of_ne same here).trans found, leads⟩

/-- A server is not the primary any more. -/
theorem Base.demote (base : Base s) (running : s.server a = some ⟨c, since⟩)
    (idle : c.role = .primary → free a ∧ ¬Busy s a)
    (role : c'.role ≠ .primary) (links : c'.links = if c.role = .primary then ∅ else c.links)
    (same : t.server = (s.put a ⟨c', since'⟩).server)
    (busy : ∀ p, Busy t p → Busy s p) : Moves free s t where
  toBase := by
    refine base.put ⟨fun _ => ?_, fun leads => absurd leads role⟩ (fun leads => absurd leads role)
      same fun p work => .inl ⟨busy p work, ?_⟩
    · rw [links]
      split
      · rfl
      · exact (base.sober a _ running).1 ‹_›
    · rintro rfl
      obtain ⟨server, found, leads⟩ := base.busy p (busy p work)
      cases running.symm.trans found
      exact (idle leads).2 (busy p work)
  fewer b server found leads := by
    rcases put_cases same found with ⟨rfl, rfl⟩ | ⟨-, was⟩
    · exact absurd leads role
    · exact ⟨server, was, leads, fun _ _ => id⟩
  stays b server found leads busy := by
    by_cases here : b = a
    · subst here
      cases running.symm.trans found
      exact absurd (idle leads).1 busy
    · exact ⟨server, (put_of_ne same here).trans found, leads⟩

/-- No message makes a server the primary, and none gives it a link. -/
theorem Base.receive (base : Base s) (quiet : ∀ a, free a → ¬Busy s a)
    {k : Nat} (received : ∀ e server, s.sent[k]? = some e → s.server e.receiver = some server →
      server.cluster.role = .primary → match e.content with
        | .attach .. => free e.receiver
        | .joinOk .. => False
        | _ => True)
    (stepped : Ids.step s (.receive k) = some s') : Moves free s s' := by
  cases Stepped.of_step stepped with
  | unheard => exact .of_same base rfl fun _ => id
  | @heard k sender receiver content c since waiting running =>
  have allowed := received _ _ waiting running
  cases content with
  | joinOk id primaryId =>
    dsimp only [handle]
    split
    · have joins : (c.join id primaryId sender.1 sender.2).role ≠ .primary := nofun
      exact base.demote running (fun leads => (allowed leads).elim) joins
        (if_neg fun leads => allowed leads).symm rfl fun _ work => busy_leave_of_quiet work nofun
    · refine base.keep running rfl rfl rfl (fun none => none) (fun _ _ held => held) fun _ work =>
        .inl (busy_leave_of_quiet work nofun)
  | attach primary members =>
    have backup : (c.replicaAttach sender primary members).role ≠ .primary := nofun
    exact base.demote running (fun leads => ⟨allowed leads, quiet _ (allowed leads)⟩) backup rfl rfl
      fun _ work => busy_leave_of_quiet work nofun
  | membership members =>
    refine base.keep running rfl rfl rfl id (fun _ _ => id) fun _ work =>
      .inl (busy_leave_of_quiet work fun task mem => ?_)
    dsimp only [handle] at mem
    split at mem
    · cases List.mem_singleton.mp mem
      exact not_false
    · cases mem
  | coordinator leader =>
    refine base.keep running rfl rfl rfl id (fun _ _ => id) fun _ work =>
      .inl (busy_leave_of_quiet work fun task mem => ?_)
    dsimp only [handle] at mem
    split at mem
    · cases mem
    · cases List.mem_singleton.mp mem
      exact not_false
  | election candidate =>
    refine base.keep running rfl rfl rfl id (fun _ _ => id) fun p work => ?_
    refine (busy_leave work).imp_right fun ⟨own, task, mem, _⟩ => ⟨own, ?_⟩
    dsimp only [handle] at mem
    split at mem
    · assumption
    · cases mem

/-- Only the thread that reassures a backup calls `attach_replica`. -/
theorem reassures_of_perform {task : Task} :
    (∀ next ∈ (perform c task).2.1, Reassures next → Reassures task) ∧
      ((perform c task).2.2 ≠ [] → Reassures task) := by
  cases task with
  | reassure | adopt => exact ⟨fun _ _ _ => trivial, fun _ => trivial⟩
  | remove | broadcast =>
    refine ⟨fun next mem reassures => ?_, fun called => (called rfl).elim⟩
    cases List.mem_singleton.mp mem
    exact reassures
  | announce | follow | renew | tell => exact ⟨nofun, fun called => (called rfl).elim⟩

/-- A primary steps down when it follows a leader, and only it reassures a backup. -/
theorem Base.perform (base : Base s) (quiet : ∀ a, free a → ¬Busy s a) {k : Nat}
    (followed : ∀ a me leader server, s.tasks[k]? = some (a, .follow me leader) →
      s.server a = some server → server.cluster.role = .primary → free a)
    (stepped : Ids.step s (.perform k) = some s') : Moves free s s' := by
  cases Stepped.of_step stepped with
  | @perform k a task c since waiting running =>
  have leads (reassures : Reassures task) : c.role = .primary := by
    obtain ⟨server, found, leads⟩ :=
      base.busy a (.inr (.inr ⟨_, List.mem_of_getElem? waiting, reassures, rfl⟩))
    cases running.symm.trans found
    exact leads
  have busy : ∀ p, Busy ((({ s with tasks := s.tasks.eraseIdx k }.put a
      ⟨(perform c task).1, since⟩).leave a (perform c task).2.1).attach a (perform c task).2.2) p →
        Busy s p ∨ p = a ∧ Reassures task := by
    intro p work
    rcases busy_attach work with work | ⟨own, called⟩
    · rcases busy_leave work with work | ⟨own, next, left, reassures⟩
      · exact .inl (busy_performed work)
      · exact .inr ⟨own, reassures_of_perform.1 next left reassures⟩
    · exact .inr ⟨own, reassures_of_perform.2 called⟩
  have busy' := fun p work => (busy p work).imp_right (And.imp_right leads)
  cases task with
  | follow me leader =>
    have idle := followed a me leader _ waiting running
    have backup : (c.coordinator leader).role ≠ .primary := nofun
    exact base.demote running (fun leads => ⟨idle leads, quiet _ (idle leads)⟩) backup rfl rfl
      fun p work => (busy p work).resolve_right And.right
  | announce | reassure | adopt | renew | remove | broadcast | tell =>
    exact base.keep running rfl rfl rfl id (fun _ _ => id) busy'

/-- The server that chooses an id changes its lowest one only. -/
theorem Base.choose (base : Base s) {p : Address} (running : s.server p = some ⟨c, since⟩)
    (leads : c.role = .primary)
    (same : t.server = (s.put p ⟨(c.assignId a.1 a.2).1, since⟩).server)
    (busy : ∀ q, Busy t q → Busy s q ∨ q = p) : Moves free s t := by
  obtain ⟨lowest, kept⟩ := c.assignId_keeps a.1 a.2
  rw [kept] at same
  exact base.keep running same rfl rfl id (fun _ _ => id) fun q work =>
    (busy q work).imp_right fun own => ⟨own, leads⟩

/-- The server that records a member calls `attach_replica` for it. -/
theorem Base.join (base : Base s) {k : Nat} (stepped : Ids.step s (.join k) = some s') :
    Moves free s s' := by
  cases Stepped.of_step stepped with
  | @join k o c since offered running =>
  have leads : c.role = .primary := by
    obtain ⟨server, found, leads⟩ :=
      base.busy o.granter (.inr (.inl ⟨o, List.mem_of_getElem? offered, rfl⟩))
    cases running.symm.trans found
    exact leads
  refine base.keep running rfl rfl rfl id (fun _ _ => id) fun q work => ?_
  rcases busy_attach work with (calls | ⟨other, mem, rfl⟩ | tasks) | ⟨own, -⟩
  · exact .inl (.inl calls)
  · exact .inl (.inr (.inl ⟨other, List.mem_of_mem_eraseIdx mem, rfl⟩))
  · exact .inl (.inr (.inr tasks))
  · exact .inr ⟨own, leads⟩

theorem Base.crash (base : Base s) (stepped : Ids.step s (.crash a) = some s') :
    Moves (fun p => p = a) s s' ∧ s'.server a = none := by
  cases stepped
  have was : ∀ b server, update s.server a none b = some server →
      b ≠ a ∧ s.server b = some server := fun b server => crash_cases
  refine ⟨?_, update_self ..⟩
  constructor
  case toBase =>
    refine ⟨fun b server running => base.sober b server (was b server running).2,
      fun p work => ?_, fun b d server other running running' =>
        base.only b d server other (was b server running).2 (was d other running').2⟩
    obtain ⟨old, away⟩ : Busy s p ∧ p ≠ a := by
      rcases work with ⟨call, mem, rfl⟩ | ⟨o, mem, rfl⟩ | ⟨task, mem, reassures, rfl⟩
      · obtain ⟨old, away⟩ := List.mem_filter.mp mem
        exact ⟨.inl ⟨call, old, rfl⟩, of_decide_eq_true away⟩
      · obtain ⟨old, away⟩ := List.mem_filter.mp mem
        exact ⟨.inr (.inl ⟨o, old, rfl⟩), of_decide_eq_true away⟩
      · obtain ⟨old, away⟩ := List.mem_filter.mp mem
        exact ⟨.inr (.inr ⟨task, old, reassures, rfl⟩), of_decide_eq_true away⟩
    obtain ⟨server, found, leads⟩ := base.busy p old
    exact ⟨server, (update_of_ne away ..).trans found, leads⟩
  case fewer =>
    exact fun b server running leads => ⟨server, (was b server running).2, leads, fun _ _ => id⟩
  case stays =>
    exact fun b server running leads away => ⟨server, (update_of_ne away ..).trans running, leads⟩

/-- Only a takeover makes a primary, only `attach_replica` a link. -/
theorem Base.step {label : Ids.Label} (base : Base s)
    (quiet : ∀ a, free a → ¬Busy s a)
    (taken : ∀ a, label ≠ .takeOver a) (linked : ∀ k, label ≠ .attached k true)
    (received : ∀ k, label = .receive k → ∀ e server, s.sent[k]? = some e →
      s.server e.receiver = some server → server.cluster.role = .primary → match e.content with
        | .attach .. => free e.receiver
        | .joinOk .. => False
        | _ => True)
    (followed : ∀ k, label = .perform k → ∀ a me leader server,
      s.tasks[k]? = some (a, .follow me leader) → s.server a = some server →
        server.cluster.role = .primary → free a)
    (crashed : ∀ a, label ≠ .crash a)
    (stepped : Ids.step s label = some s') : Moves free s s' := by
  have kind := Stepped.of_step stepped
  cases kind with
  | takeOver => exact absurd rfl (taken _)
  | crash => exact absurd rfl (crashed _)
  | refused running leads => exact base.choose running leads rfl fun _ => .inl
  | chosen running leads =>
    refine base.choose running leads rfl fun q work => ?_
    rcases work with calls | ⟨o, mem, rfl⟩ | tasks
    · exact .inl (.inl calls)
    · rcases List.mem_append.mp mem with old | new
      · exact .inl (.inr (.inl ⟨o, old, rfl⟩))
      · cases List.mem_singleton.mp new
        exact .inr rfl
    · exact .inl (.inr (.inr tasks))
  | join => exact base.join stepped
  | unheard | heard => exact base.receive quiet (received _ rfl) stepped
  | perform => exact base.perform quiet (followed _ rfl) stepped
  | attach | announce | inform | suspect => exact .of_same base rfl fun _ => id
  | @start a absent =>
    have joining : (Cluster.init a.1 a.2 : Cluster Address).role ≠ .primary := nofun
    have sober : Sober (Cluster.init a.1 a.2) := ⟨fun _ => rfl, fun leads => absurd leads joining⟩
    constructor
    case toBase =>
      refine base.put sober (fun leads => absurd leads joining) rfl fun p work => .inl ⟨work, ?_⟩
      rintro rfl
      obtain ⟨server, found, -⟩ := base.busy p work
      rw [absent] at found
      cases found
    case fewer =>
      intro b server found leads
      rcases put_cases rfl found with ⟨rfl, rfl⟩ | ⟨-, was⟩
      · exact absurd leads joining
      · exact ⟨server, was, leads, fun _ _ => id⟩
    case stays =>
      intro b server found leads _
      refine ⟨server, (put_of_ne rfl ?_).trans found, leads⟩
      rintro rfl
      rw [absent] at found
      cases found
  | @attached k ok p member c since calling running =>
    cases ok with
    | true => exact absurd rfl (linked k)
    | false =>
      refine base.keep running rfl rfl rfl id (fun _ _ => id) fun _ work => .inl ?_
      refine busy_eraseIdx (busy_leave_of_quiet work fun task mem => ?_)
      cases List.mem_singleton.mp mem
      exact not_false
  | @drop p id c since running present =>
    refine base.keep running rfl rfl rfl (fun none => ?_) (fun id' b linked => ?_) fun _ work =>
      .inl (busy_leave_of_quiet work fun task mem => ?_)
    · change c.links.erase id = ∅
      rw [none]
      exact ExtTreeMap.erase_empty
    · change (c.links.erase id)[id']? = some b at linked
      rw [Map.getElem?_erase] at linked
      split at linked
      · cases linked
      · exact linked
    · cases List.mem_singleton.mp mem
      exact not_false
  | elect running backup => exact base.keep running rfl rfl rfl id (fun _ _ => id) fun _ => .inl

/-- The server that takes over is the primary, without links, and no other is. -/
theorem Base.takeOver (base : Base s)
    (alone : ∀ b server, s.server b = some server → server.cluster.role ≠ .primary)
    (stepped : Ids.step s (.takeOver a) = some s') :
    Base s' ∧ ∀ p server, s'.server p = some server → server.cluster.role = .primary →
      p = a ∧ server.cluster.links = ∅ := by
  cases Stepped.of_step stepped with
  | @takeOver a c since running backup =>
  have links : c.links = ∅ := (base.sober a _ running).1 backup
  constructor
  · refine base.put ⟨fun away => absurd rfl away, fun _ => rfl⟩
      (fun _ b other _ was => alone b other was) rfl fun p work => ?_
    have announces : ∀ task ∈ c.becomePrimary.2.map Task.announce, ¬Reassures task := by
      intro task mem
      obtain ⟨m, -, rfl⟩ := List.mem_map.mp mem
      exact not_false
    rcases busy_attach (busy_leave_of_quiet work announces) with old | ⟨own, -⟩
    · obtain ⟨server, found, leads⟩ := base.busy p old
      exact absurd leads (alone p server found)
    · exact .inr ⟨own, rfl⟩
  · intro p server found leads
    rcases put_cases (t := (s.put a ⟨c.becomePrimary.1, s.grants.length⟩)) rfl found with
      ⟨here, rfl⟩ | ⟨-, was⟩
    · exact ⟨here, links⟩
    · exact absurd leads (alone p server was)

/-- The call of `attach_replica` on the primary ends with a new link. -/
theorem Base.goLive (base : Base s) {k : Nat} {p : Address} {member : ServerAddress}
    (call : s.attaching[k]? = some (p, member))
    (stepped : Ids.step s (.attached k true) = some s') :
    Base s' ∧ ∃ c since, s.server p = some ⟨c, since⟩ ∧ c.role = .primary ∧
      (∃ server, s'.server p = some server ∧ server.cluster.role = .primary) ∧
      ∀ b server, s'.server b = some server → server.cluster.role = .primary →
        b = p ∧ server.cluster.links = c.links.insert member.id (addressOf member) := by
  cases Stepped.of_step stepped with
  | @attached k ok p' member' c since calling running =>
  cases call.symm.trans calling
  obtain ⟨server, found, leads⟩ := base.busy p (.inl ⟨_, List.mem_of_getElem? call, rfl⟩)
  cases running.symm.trans found
  have alone : ∀ b other, b ≠ p → s.server b = some other → other.cluster.role ≠ .primary :=
    fun b other away was role => away (base.only b p other _ was running role leads)
  have sober : Sober (c.setLink member.id (addressOf member)) :=
    ⟨fun away => absurd leads away, (base.sober p _ running).2⟩
  refine ⟨base.put sober (fun _ => alone) rfl fun q work => ?_, c, since, running, leads,
    ⟨_, put_self rfl, leads⟩, fun b server found role => ?_⟩
  · by_cases here : q = p
    · exact .inr ⟨here, leads⟩
    · refine .inl ⟨busy_eraseIdx (busy_leave_of_quiet work fun task mem => ?_), here⟩
      cases List.mem_singleton.mp mem
      exact not_false
  · rcases put_cases (t := s.put p ⟨c.setLink member.id (addressOf member), since⟩) rfl found with
      ⟨here, rfl⟩ | ⟨away, was⟩
    · exact ⟨here, rfl⟩
    · exact absurd role (alone b server away was)

end Base

/-! ## The invariant -/

namespace State

/-- What the change brings is a version the store may have. -/
def Kept (s : State) (c : Change) : Prop :=
  ∀ user path version, c.Brings user path version →
    ∀ versions, s.history user path = some versions → version ∈ versions

/-- Every link of the primary satisfies `holds`. -/
def Linked (c : Cluster Address) (holds : UInt32 → Address → Prop) : Prop :=
  ∀ id b, c.links[id]? = some b → holds id b

/-- The two servers have the same files. -/
def Same (s : State) (b p : Address) : Prop := (s.disk b).storage.SameFiles (s.disk p).storage

end State

open State

/-- What holds of the linked backups while the write mutex of the primary is where it is. -/
def WriterInv (s : State) (p : Address) (c : Cluster Address) : Writer → Prop
  | .free => Linked c fun _ b => s.Same b p
  | .requesting _ locals =>
    locals = (s.disk p).storage.entries ∧ Linked c fun _ b => s.Same b p
  | .attached member locals => s.Settled (addressOf member) ∧
      locals = (s.disk p).storage.entries ∧ Linked c fun _ b => s.Same b p
  | .resyncing member todo =>
    s.Settled (addressOf member) ∧ (∀ change ∈ todo, (s.disk p).storage.Copies change) ∧
      (∀ t, (s.disk (addressOf member)).storage.changeAll todo = some t →
        t.SameFiles (s.disk p).storage) ∧
      Linked c fun _ b => s.Same b p ∧
        (b = addressOf member → ∀ change ∈ todo, change.isAccount = true)
  | .replicating user name file todo failed =>
    (isValidUsername user = true ∧ isValidPath name = true) ∧
      (s.disk p).storage.content? user name = file.map File.content ∧
      Linked c fun id b =>
        (∀ u q, ¬(u = user ∧ q = name) →
          (s.disk b).storage.content? u q = (s.disk p).storage.content? u q) ∧
        -- it was reached, or its link comes later or will be dropped
        (s.Same b p ∨ (id, b) ∈ todo ∨ id ∈ failed)
  | .dropping _ _ failed => Linked c fun id b => s.Same b p ∨ id ∈ failed

/-- The path that is changed, while a link that has not been reached will be dropped. -/
def Writer.Pending : Writer → UInt32 → Address → Bytes → Bytes → Prop
  | .replicating user name _ todo failed, id, b, u, q =>
    (u = user ∧ q = name) ∧ ((id, b) ∈ todo ∨ id ∈ failed)
  | .dropping user name failed, id, _, u, q => (u = user ∧ q = name) ∧ id ∈ failed
  | _, _, _, _, _ => False

/-- A linked server with something left to apply does not serve the primary any more,
and what it applies is what the primary has, but for the path that is changed. -/
def Behind (s : State) (p : Address) (c : Cluster Address) (w : Writer) : Prop :=
  ∀ sent ∈ s.late, ∀ id : UInt32, c.links[id]? = some sent.1 → s.serves sent.1 p = false ∧
    ∀ u q version, sent.2.Brings u q version →
      (s.disk p).storage.content? u q = version ∨ w.Pending id sent.1 u q

/-- What holds of the primary `p` with the state `c`. -/
structure Leading (s : State) (p : Address) (c : Cluster Address) (w : Writer) : Prop where
  current : s.current p = true
  settled : s.Settled p
  behind : Behind s p c w
  held : WriterInv s p c w

/-- The servers that were linked when a change was last acknowledged have it, and the
primary is one of them. -/
structure Inv (K : Bytes → Prop) (s : State) : Prop where
  base : Base s.control.cluster
  valid : ∀ b, (s.disk b).storage.Valid
  within : ∀ b, (s.disk b).storage.Within K
  holds : ∀ b, s.current b = true → s.Holds (s.disk b).storage
  primary : ∀ p server, s.control.cluster.server p = some server → server.cluster.role = .primary →
    Leading s p server.cluster (s.writer p)
  busy : ∀ p, s.writer p ≠ .free → ∃ server, s.control.cluster.server p = some server ∧
    server.cluster.role = .primary
  accepted : ∀ request ∈ s.accepted,
    (∃ server, s.control.cluster.server request.server = some server ∧
      server.cluster.role = .primary) ∧
    isValidUsername request.user = true ∧ isValidPath request.name = true ∧
      ∀ file, request.file = some file → K file.content
  late : ∀ sent ∈ s.late, sent.2.Within K ∧ (s.current sent.1 = true → s.Kept sent.2)

section Steps

variable {K : Bytes → Prop} {s s' : State} {p b : Address} {c c' : Cluster Address} {w w' : Writer}
variable {storage : Storage} {change : Change}

theorem State.serves_iff : s.serves b p = true ↔ ∃ server,
    s.control.cluster.server b = some server ∧ server.cluster.primaryLink = some p ∧
      s.cut b = false := by
  rw [State.serves]
  split
  · rename_i server running
    rw [Bool.and_eq_true, decide_eq_true_eq, Bool.not_eq_true']
    refine ⟨fun served => ⟨server, running, served⟩, ?_⟩
    rintro ⟨other, found, served⟩
    cases running.symm.trans found
    exact served
  · rename_i absent
    refine ⟨nofun, ?_⟩
    rintro ⟨server, found, -⟩
    cases absent.symm.trans found

theorem State.Holds.apply (holds : s.Holds storage) (kept : s.Kept change) :
    s.Holds (storage.change change).1 := by
  intro user path versions known
  rcases Storage.content?_change storage change user path with same | brings
  · rw [same]
    exact holds user path versions known
  · exact kept _ _ _ brings versions known

theorem State.Holds.kept (holds : s.Holds storage) (copies : storage.Copies change) :
    s.Kept change := by
  intro user path version brings versions known
  rw [← copies _ _ _ brings]
  exact holds user path versions known

theorem WriterInv.mono (inv : WriterInv s p c w) (late : ∀ sent ∈ s'.late, sent ∈ s.late)
    (fewer : ∀ (id : UInt32) b, c'.links[id]? = some b → c.links[id]? = some b)
    (disk : ∀ a, (a = p ∨ (∃ id : UInt32, c.links[id]? = some a) ∨ s.Settled a) →
      (s'.disk a).storage = (s.disk a).storage) : WriterInv s' p c' w := by
  have settled : ∀ a, s.Settled a → s'.Settled a := fun a settled sent mem =>
    settled sent (late sent mem)
  have mine := disk p (.inl rfl)
  have theirs : ∀ (id : UInt32) b, c'.links[id]? = some b →
      (s'.disk b).storage = (s.disk b).storage := fun id b present =>
    disk b (.inr (.inl ⟨id, fewer id b present⟩))
  have same : ∀ (id : UInt32) b, c'.links[id]? = some b → s.Same b p → s'.Same b p := by
    intro id b present same
    rw [State.Same, mine, theirs id b present]
    exact same
  cases w with
  | free => exact fun id b present => same id b present (inv id b (fewer id b present))
  | requesting =>
    exact ⟨by rw [mine]; exact inv.1, fun id b present =>
      same id b present (inv.2 id b (fewer id b present))⟩
  | attached =>
    exact ⟨settled _ inv.1, by rw [mine]; exact inv.2.1, fun id b present =>
      same id b present (inv.2.2 id b (fewer id b present))⟩
  | resyncing member todo =>
    obtain ⟨before, copies, goal, linked⟩ := inv
    refine ⟨settled _ before, by rw [mine]; exact copies, ?_, fun id b present =>
      (linked id b (fewer id b present)).imp_left (same id b present)⟩
    rw [mine, disk _ (.inr (.inr before))]
    exact goal
  | replicating =>
    obtain ⟨names, content, linked⟩ := inv
    refine ⟨names, by rw [mine]; exact content, fun id b present => ?_⟩
    obtain ⟨others, reached⟩ := linked id b (fewer id b present)
    rw [mine, theirs id b present]
    exact ⟨others, reached.imp_left (same id b present)⟩
  | dropping =>
    exact fun id b present => (inv id b (fewer id b present)).imp_left (same id b present)

/-- Who serves the primary's link and has nothing left to apply matters, and what the
primary stores. -/
theorem Behind.mono (behind : Behind s p c w) (late : ∀ sent ∈ s'.late, sent ∈ s.late)
    (fewer : ∀ (id : UInt32) b, c'.links[id]? = some b → c.links[id]? = some b)
    (serves : ∀ b, s'.serves b p = true → s.serves b p = true ∨ s.Settled b)
    (mine : (s'.disk p).storage = (s.disk p).storage)
    (pending : ∀ id b u q, s.serves b p = false → w.Pending id b u q → w'.Pending id b u q) :
    Behind s' p c' w' := by
  intro sent mem id present
  obtain ⟨apart, brings⟩ := behind sent (late sent mem) id (fewer id sent.1 present)
  refine ⟨Bool.eq_false_iff.mpr fun now => ?_, fun u q version bring => ?_⟩
  · rcases serves sent.1 now with before | settled
    · exact Bool.false_ne_true (apart.symm.trans before)
    · exact settled sent (late sent mem) rfl
  · rw [mine]
    exact (brings u q version bring).imp_right (pending id sent.1 u q apart)

theorem Leading.mono (leading : Leading s p c w) (current : s'.current = s.current)
    (late : ∀ sent ∈ s'.late, sent ∈ s.late)
    (fewer : ∀ (id : UInt32) b, c'.links[id]? = some b → c.links[id]? = some b)
    (serves : ∀ b, s'.serves b p = true → s.serves b p = true ∨ s.Settled b)
    (disk : s'.disk = s.disk) : Leading s' p c' w where
  current := current ▸ leading.current
  settled sent mem := leading.settled sent (late sent mem)
  behind := leading.behind.mono late fewer serves (by rw [disk]) fun _ _ _ _ _ => id
  held := leading.held.mono late fewer fun _ _ => by rw [disk]

/-- The write mutex is free again. -/
theorem Leading.free (leading : Leading s p c w) {member : ServerAddress}
    (attaches : w.attaches member = true) : Leading s p c .free where
  current := leading.current
  settled := leading.settled
  behind := leading.behind.mono (fun _ => id) (fun _ _ => id) (fun _ => .inl) rfl
    fun _ _ _ _ _ pending => by cases w <;> first | exact pending.elim | cases attaches
  held := by
    have held := leading.held
    cases w with
    | requesting => exact held.2
    | attached => exact held.2.2
    | resyncing => exact fun id b linked => (held.2.2.2 id b linked).1
    | free | replicating | dropping => cases attaches

/-- What the caches have does not matter. -/
theorem Inv.setHashes (inv : Inv K s) (hashes : Address → Hashes) : Inv K { s with hashes } where
  base := inv.base
  valid := inv.valid
  within := inv.within
  holds := inv.holds
  primary p server running leads :=
    (inv.primary p server running leads).mono rfl (fun _ => id) (fun _ _ => id) (fun _ => .inl) rfl
  busy := inv.busy
  accepted := inv.accepted
  late := inv.late

theorem busy_of_update {writer : Address → Writer} (busy : update writer b .free p ≠ .free) :
    p ≠ b ∧ writer p ≠ .free := by
  have here : p ≠ b := by
    rintro rfl
    exact busy (update_self ..)
  rw [update_of_ne here] at busy
  exact ⟨here, busy⟩

/-- The cluster moves, and the threads with a write mutex do what follows from it. -/
theorem Inv.moves (inv : Inv K s) {free : Address → Prop} {control : Primaries.State}
    (moves : Moves free s.control.cluster control.cluster) {writer : Address → Writer}
    {cut : Address → Bool} {late : List (Address × Change)} {accepted : List Request}
    (fewer : ∀ sent ∈ late, sent ∈ s.late) (asked : ∀ request ∈ accepted, request ∈ s.accepted)
    (idle : ∀ p, free p → writer p = .free ∧ ∀ request ∈ accepted, request.server ≠ p)
    (busy : ∀ p, writer p ≠ .free →
      ∃ server, s.control.cluster.server p = some server ∧ server.cluster.role = .primary)
    (serves : ∀ b p, { s with control, cut }.serves b p = true →
      s.serves b p = true ∨ s.Settled b)
    (follows : ∀ p c, control.cluster.server p ≠ none → Leading s p c (s.writer p) →
      Leading s p c (writer p)) :
    Inv K { s with control, accepted, writer, cut, late } where
  base := moves.toBase
  valid := inv.valid
  within := inv.within
  holds := inv.holds
  primary p server running leads := by
    obtain ⟨before, was, led, links⟩ := moves.fewer p server running leads
    have leading := follows p _ (by rw [running]; nofun) (inv.primary p before was led)
    exact leading.mono rfl fewer links (fun b => serves b p) rfl
  busy p holds := by
    obtain ⟨server, running, leads⟩ := busy p holds
    exact moves.stays p server running leads fun away => holds (idle p away).1
  accepted request mem := by
    obtain ⟨⟨server, running, leads⟩, valid⟩ := inv.accepted request (asked request mem)
    refine ⟨moves.stays _ server running leads fun away => ?_, valid⟩
    exact (idle _ away).2 request mem rfl
  late sent mem := inv.late sent (fewer sent mem)

end Steps

/-! ## Steps of the cluster -/

/-- The steps of the cluster, by what they do to its servers. -/
theorem control_cases {s s' : Primaries.State} {label : Primaries.Label}
    (stepped : Primaries.step s label = some s') :
    (∃ l, label = .cluster l ∧ ofElection l = false ∧ Ids.step s.cluster l = some s'.cluster) ∨
    (∃ a, label = .elect a ∧ Ids.step s.cluster (.elect a) = some s'.cluster) ∨
    (∃ a r, label = .decide a ∧ s.round a = some r ∧ r.todo = [] ∧ r.higherAlive = false ∧
      Ids.step s.cluster (.takeOver a) = some s'.cluster) ∨
    (∀ l, label ≠ .cluster l) ∧ s'.cluster.server = s.cluster.server ∧
      ∀ a, Busy s'.cluster a → Busy s.cluster a := by
  cases label with
  | cluster l =>
    rw [Primaries.step] at stepped
    split at stepped
    · cases stepped
    rename_i beside
    obtain ⟨cluster, moved, rfl⟩ := Option.map_eq_some_iff.mp stepped
    exact .inl ⟨l, rfl, Bool.eq_false_iff.mpr beside, moved⟩
  | elect a =>
    rw [Primaries.step] at stepped
    split at stepped
    swap
    · cases stepped
    obtain ⟨cluster, moved, rfl⟩ := Option.map_eq_some_iff.mp stepped
    exact .inr (.inl ⟨a, rfl, moved⟩)
  | ask a =>
    rw [Primaries.step] at stepped
    split at stepped
    swap
    · cases stepped
    split at stepped <;> cases stepped <;>
      exact .inr (.inr (.inr ⟨fun l same => (by cases same), rfl, fun _ => id⟩))
  | decide a =>
    rw [Primaries.step] at stepped
    split at stepped
    · rename_i now
      obtain ⟨cluster, moved, rfl⟩ := Option.map_eq_some_iff.mp stepped
      exact .inr (.inr (.inl ⟨a, _, rfl, now, rfl, rfl, moved⟩))
    · cases stepped
      exact .inr (.inr (.inr ⟨fun l same => (by cases same), rfl, fun _ => id⟩))
    · cases stepped

/-- Only a `ReplicaAttach` makes a server serve a link. -/
theorem link_step {s s' : Ids.State} {label : Ids.Label} {b p : Address} {server : Server}
    (stepped : Ids.step s label = some s') (running : s'.server b = some server)
    (link : server.cluster.primaryLink = some p) :
    (∃ old, s.server b = some old ∧ old.cluster.primaryLink = some p) ∨
      ∃ k sender primary members, label = .receive k ∧
        s.sent[k]? = some ⟨sender, b, .attach primary members⟩ := by
  have put {t : Ids.State} {a : Address} {c c' : Cluster Address} {since since' : Nat}
      (same : t.server = (s.put a ⟨c', since'⟩).server) (running : t.server b = some server)
      (was : s.server a = some ⟨c, since⟩)
      (kept : c'.primaryLink = some p → c.primaryLink = some p) :
      ∃ old, s.server b = some old ∧ old.cluster.primaryLink = some p := by
    rcases put_cases same running with ⟨rfl, rfl⟩ | ⟨-, before⟩
    · exact ⟨_, was, kept link⟩
    · exact ⟨server, before, link⟩
  cases Stepped.of_step stepped with
  | @start a absent =>
    rcases put_cases rfl running with ⟨rfl, rfl⟩ | ⟨-, before⟩
    · cases link
    · exact .inl ⟨server, before, link⟩
  | @refused q a c since was leads out =>
    obtain ⟨lowest, same⟩ := c.assignId_keeps a.1 a.2
    exact .inl (put rfl running was (by rw [same]; exact id))
  | @chosen q a c since was leads left =>
    obtain ⟨lowest, same⟩ := c.assignId_keeps a.1 a.2
    exact .inl (put rfl running was (by rw [same]; exact id))
  | join offered was => exact .inl (put rfl running was id)
  | attach | announce | inform | suspect | unheard => exact .inl ⟨server, running, link⟩
  | @attached k ok q member c since calling was =>
    refine .inl (put rfl running was ?_)
    cases ok <;> exact id
  | @perform k a task c since waiting was =>
    refine .inl (put rfl running was ?_)
    cases task <;> exact id
  | @heard k sender receiver content c since waiting was =>
    cases content with
    | attach primary members =>
      rcases put_cases (s := s) rfl running with ⟨rfl, -⟩ | ⟨-, before⟩
      · exact .inr ⟨k, sender, primary, members, rfl, waiting⟩
      · exact .inl ⟨server, before, link⟩
    | joinOk id primaryId =>
      refine .inl (put rfl running was ?_)
      dsimp only [handle]
      split <;> exact fun kept => kept
    | membership | coordinator | election => exact .inl (put rfl running was id)
  | drop was linked => exact .inl (put rfl running was id)
  | crash => exact .inl ⟨server, (crash_cases running).2, link⟩
  | elect was backup => exact .inl (put rfl running was id)
  | takeOver was backup => exact .inl (put rfl running was nofun)

section Control

variable {K : Bytes → Prop} {s s' : State} {label : Ids.Label} {control : Primaries.State}

/-- Who gets a new link has nothing left to apply. -/
theorem Inv.serves {label : Primaries.Label} (careful : Careful K s (.control label))
    (moved : Primaries.step s.control label = some control) {b p : Address}
    (serves : { s with control, cut := s.cutAfter label }.serves b p = true) :
    s.serves b p = true ∨ s.Settled b := by
  obtain ⟨server, running, link, uncut⟩ := State.serves_iff.mp serves
  have before (cut : s.cutAfter label b = s.cut b) (old : ∃ old,
      s.control.cluster.server b = some old ∧ old.cluster.primaryLink = some p) :
      s.serves b p = true := by
    obtain ⟨old, was, linked⟩ := old
    exact State.serves_iff.mpr ⟨old, was, linked, cut ▸ uncut⟩
  have attached {k : Nat} {sender : Address} {primary : ServerAddress}
      {members : List ServerAddress} (here : label = .cluster (.receive k))
      (waiting : s.control.cluster.sent[k]? = some ⟨sender, b, .attach primary members⟩) :
      s.Settled b := by
    subst here
    exact (careful _ waiting).1
  have kept : s.cutAfter label b = s.cut b ∨ ∃ k sender primary members,
      label = .cluster (.receive k) ∧
        s.control.cluster.sent[k]? = some ⟨sender, b, .attach primary members⟩ := by
    cases label with
    | cluster l =>
      cases l with
      | receive k =>
        cases waiting : s.control.cluster.sent[k]? with
        | none => exact .inl (by simp only [State.cutAfter, waiting])
        | some e =>
          obtain ⟨sender, receiver, content⟩ := e
          cases content with
          | attach primary members =>
            by_cases here : b = receiver
            · subst here
              exact .inr ⟨k, sender, primary, members, rfl, waiting⟩
            · refine .inl ?_
              simp only [State.cutAfter, waiting]
              exact update_of_ne here ..
          | joinOk | membership | coordinator | election =>
            exact .inl (by simp only [State.cutAfter, waiting])
      | _ => exact .inl rfl
    | elect | ask | decide => exact .inl rfl
  rcases kept with kept | ⟨k, sender, primary, members, here, waiting⟩
  swap
  · exact .inr (attached here waiting)
  have step {l : Ids.Label} (stepped : Ids.step s.control.cluster l = some control.cluster)
      (received : ∀ k, l = .receive k → label = .cluster (.receive k)) :
      s.serves b p = true ∨ s.Settled b := by
    rcases link_step stepped running link with old | ⟨k, sender, primary, members, rfl, waiting⟩
    · exact .inl (before kept old)
    · exact .inr (attached (received k rfl) waiting)
  rcases control_cases moved with ⟨l, rfl, -, stepped⟩ | ⟨a, rfl, stepped⟩ |
    ⟨a, r, rfl, -, -, -, stepped⟩ | ⟨-, same, -⟩
  · exact step stepped fun k here => by rw [here]
  · exact step stepped nofun
  · exact step stepped nofun
  · exact .inl (before kept ⟨server, same ▸ running, link⟩)

/-- A step of the cluster that is no takeover and no crash and makes no link. -/
theorem Inv.cluster (inv : Inv K s) (careful : Careful K s (.control (.cluster label)))
    (beside : ofElection label = false) (linked : ∀ k, label ≠ .attached k true)
    (crashed : ∀ a, label ≠ .crash a)
    (stepped : Ids.step s.control.cluster label = some control.cluster) :
    Moves s.Resting s.control.cluster control.cluster := by
  refine inv.base.step (fun _ rests => rests.2.2) ?_ linked ?_ ?_ crashed stepped
  · rintro a rfl
    cases beside
  · rintro k rfl e server waiting running leads
    have allowed := careful e waiting
    obtain ⟨sender, receiver, content⟩ := e
    cases content with
    | attach => exact allowed.2 server running leads
    | joinOk => exact allowed server running leads
    | membership | coordinator | election => trivial
  · rintro k rfl a me leader server waiting running leads
    exact careful a me leader waiting server running leads

theorem Inv.setWriters (inv : Inv K s) {writer : Address → Writer} {cut : Address → Bool}
    (moves : Moves s.Resting s.control.cluster control.cluster)
    (idle : ∀ p, s.Resting p → writer p = .free)
    (busy : ∀ p, writer p ≠ .free → ∃ server, s.control.cluster.server p = some server ∧
      server.cluster.role = .primary)
    (serves : ∀ b p, { s with control, cut }.serves b p = true →
      s.serves b p = true ∨ s.Settled b)
    (follows : ∀ p c, Leading s p c (s.writer p) → Leading s p c (writer p)) :
    Inv K { s with control, writer, cut } :=
  inv.moves moves (fun _ => id) (fun _ => id) (fun p rests => ⟨idle p rests, rests.2.1⟩) busy serves
    fun p c _ => follows p c

theorem Inv.attach {k : Nat} {writer : Address → Writer} (inv : Inv K s)
    (careful : Careful K s (.control (.cluster (.attach k))))
    (moves : Moves s.Resting s.control.cluster control.cluster)
    (serves : ∀ b p, { s with control }.serves b p = true → s.serves b p = true ∨ s.Settled b)
    (named : s.writers (.cluster (.attach k)) = some writer) :
    Inv K { s with control, writer } := by
  rw [State.writers] at named
  split at named
  · cases named
  rename_i p member call
  split at named <;> cases named
  rename_i free
  refine inv.setWriters moves (fun q rests => ?_) (fun q holds => ?_) serves
    (fun q c leading => ?_) <;>
    by_cases here : q = p
  · exact absurd (.inl ⟨_, List.mem_of_getElem? call, here.symm⟩) rests.2.2
  · rw [update_of_ne here]
    exact rests.1
  · rw [here]
    exact inv.base.busy p (.inl ⟨_, List.mem_of_getElem? call, rfl⟩)
  · rw [update_of_ne here] at holds
    exact inv.busy q holds
  · subst here
    rw [free] at leading
    rw [update_self]
    exact ⟨leading.current, leading.settled, leading.behind,
      Hashes.report_entries (careful q member call) (inv.valid q), leading.held⟩
  · rw [update_of_ne here]
    exact leading

theorem Inv.receive {k : Nat} {writer : Address → Writer} {cut : Address → Bool} (inv : Inv K s)
    (careful : Careful K s (.control (.cluster (.receive k))))
    (moves : Moves s.Resting s.control.cluster control.cluster)
    (serves : ∀ b p, { s with control, cut }.serves b p = true →
      s.serves b p = true ∨ s.Settled b)
    (named : s.writers (.cluster (.receive k)) = some writer) :
    Inv K { s with control, writer, cut } := by
  have unchanged : Inv K { s with control, cut } :=
    inv.setWriters moves (fun _ rests => rests.1) inv.busy serves fun _ _ => id
  rw [State.writers] at named
  split at named
  swap
  · cases named
    exact unchanged
  rename_i sender receiver primary members waiting
  split at named
  swap
  · cases named
    exact unchanged
  rename_i member locals running requesting
  split at named <;> cases named
  swap
  · exact unchanged
  rename_i reached
  refine inv.setWriters moves (fun q rests => ?_) (fun q holds => ?_) serves
    (fun q c leading => ?_) <;>
    by_cases here : q = sender
  · subst here
    cases requesting.symm.trans rests.1
  · rw [update_of_ne here]
    exact rests.1
  · rw [here]
    exact inv.busy sender (by rw [requesting]; nofun)
  · rw [update_of_ne here] at holds
    exact inv.busy q holds
  · subst here
    rw [requesting] at leading
    rw [update_self]
    exact ⟨leading.current, leading.settled, leading.behind,
      reached ▸ (careful _ waiting).1, leading.held⟩
  · rw [update_of_ne here]
    exact leading

/-- What a crashed primary had sent may still be applied. -/
theorem Inv.sentLate (inv : Inv K s) {sent : List (Address × Change)}
    (alone : sent ≠ [] → ∀ p server, s.control.cluster.server p = some server →
      server.cluster.role ≠ .primary)
    (kept : ∀ e ∈ sent, e.2.Within K ∧ (s.current e.1 = true → s.Kept e.2)) :
    Inv K { s with late := sent ++ s.late } := by
  cases sent with
  | nil => exact inv
  | cons first rest =>
    have nowhere := alone nofun
    exact { inv with
      primary := fun p server running leads => absurd leads (nowhere p server running)
      late := fun e mem => (List.mem_append.mp mem).elim (kept e) (inv.late e) }

/-- What is under way on a server comes from its store. -/
theorem Inv.underWay (inv : Inv K s) {a : Address} {sent : Address × Change}
    (mem : sent ∈ s.underWay a) : (∃ server, s.control.cluster.server a = some server ∧
      server.cluster.role = .primary) ∧ sent.2.Within K ∧ s.Kept sent.2 := by
  obtain ⟨mem, -⟩ := List.mem_filter.mp mem
  have busy : s.writer a ≠ .free := by
    intro free
    rw [free] at mem
    cases mem
  obtain ⟨server, running, leads⟩ := inv.busy a busy
  have leading := inv.primary a server running leads
  have held := leading.held
  have copies : (s.disk a).storage.Copies sent.2 := by
    split at mem
    · rename_i member change todo writer
      cases List.mem_singleton.mp mem
      rw [writer] at held
      exact held.2.1 change List.mem_cons_self
    · rename_i user name file link todo failed writer
      cases List.mem_singleton.mp mem
      rw [writer] at held
      exact Storage.copies_ofEdit held.2.1
    · cases mem
  exact ⟨⟨server, running, leads⟩, (inv.within a).of_copies copies,
    (inv.holds a leading.current).kept copies⟩

theorem Inv.crash {a : Address} (inv : Inv K s)
    (serves : ∀ b p, { s with control }.serves b p = true → s.serves b p = true ∨ s.Settled b)
    (stepped : Ids.step s.control.cluster (.crash a) = some control.cluster) :
    Inv K { s with control, writer := update s.writer a .free
                   accepted := s.accepted.filter fun request => request.server ≠ a
                   late := (s.underWay a ++ s.late).filter fun sent => sent.1 ≠ a } := by
  obtain ⟨moves, gone⟩ := inv.base.crash stepped
  have after : Inv K { s with control, writer := update s.writer a .free
                              accepted := s.accepted.filter fun request => request.server ≠ a
                              late := s.late.filter fun sent => sent.1 ≠ a } := by
    refine inv.moves moves (fun sent mem => (List.mem_filter.mp mem).1)
      (fun request mem => (List.mem_filter.mp mem).1) ?_ (fun p busy => ?_) serves
      fun p c stays leading => ?_
    · rintro p rfl
      exact ⟨update_self .., fun request mem => of_decide_eq_true (List.mem_filter.mp mem).2⟩
    · exact inv.busy p (busy_of_update busy).2
    · rw [update_of_ne (a := p) fun here => stays (by rw [here, gone])]
      exact leading
  rw [List.filter_append]
  refine after.sentLate (fun some p server running leads => ?_) fun e mem => ?_
  · obtain ⟨e, mem⟩ := List.exists_mem_of_ne_nil _ some
    obtain ⟨other, was, led⟩ := (inv.underWay (List.mem_filter.mp mem).1).1
    obtain ⟨server', was', led', -⟩ := moves.fewer p server running leads
    cases inv.base.only p a server' other was' was led' led
    rw [gone] at running
    cases running
  · obtain ⟨-, within, kept⟩ := inv.underWay (List.mem_filter.mp mem).1
    exact ⟨within, fun _ => kept⟩

theorem Inv.takeOver {a : Address} (inv : Inv K s) (current : s.current a = true)
    (settled : s.Settled a) (alone : ∀ b server, s.control.cluster.server b = some server →
      server.cluster.role ≠ .primary)
    (stepped : Ids.step s.control.cluster (.takeOver a) = some control.cluster) :
    Inv K { s with control } := by
  obtain ⟨base, only⟩ := inv.base.takeOver alone stepped
  have free : ∀ p, s.writer p = .free := by
    intro p
    by_contra busy
    obtain ⟨server, running, leads⟩ := inv.busy p busy
    exact alone p server running leads
  refine { inv with base := base, busy := fun p busy => absurd (free p) busy,
                    primary := fun p server running leads => ?_
                    accepted := fun request mem => ?_ }
  · obtain ⟨rfl, links⟩ := only p server running leads
    have none : ∀ holds, Linked server.cluster holds := by
      intro holds id b linked
      rw [links] at linked
      cases linked
    refine ⟨current, settled, fun sent _ id => none (fun _ _ => _) id sent.1, ?_⟩
    dsimp only
    rw [free]
    exact none _
  · obtain ⟨⟨server, running, leads⟩, -⟩ := inv.accepted request mem
    exact absurd leads (alone _ server running)

theorem Inv.steer {label : Primaries.Label} (inv : Inv K s) (careful : Careful K s (.control label))
    (stepped : step s (.control label) = some s') : Inv K s' := by
  simp only [Failover.step] at stepped
  split at stepped <;> cases stepped
  rename_i writer control named moved
  have serves : ∀ b p, { s with control, cut := s.cutAfter label }.serves b p = true →
      s.serves b p = true ∨ s.Settled b := fun b p => Inv.serves careful moved
  have still : (∀ l, label ≠ .cluster l) → Inv K { s with control } →
      Inv K { s with
        control, writer, hashes := s.hashesAfter label, accepted := s.acceptedAfter label
        cut := s.cutAfter label, late := s.lateAfter label } := by
    intro other after
    cases label with
    | cluster l => exact absurd rfl (other l)
    | elect | ask | decide =>
      cases named
      exact after
  have plain (other : ∀ l, label ≠ .cluster l) : ∀ b p, { s with control }.serves b p = true →
      s.serves b p = true ∨ s.Settled b := by
    cases label with
    | cluster l => exact absurd rfl (other l)
    | elect | ask | decide => exact serves
  rcases control_cases moved with ⟨l, rfl, beside, clusterMoved⟩ | ⟨a, rfl, clusterMoved⟩ |
    ⟨a, r, rfl, now, asked, alone, clusterMoved⟩ | ⟨other, server, attaching⟩
  · by_cases crashed : ∃ a, l = .crash a
    · obtain ⟨a, rfl⟩ := crashed
      cases named
      exact (inv.crash serves clusterMoved).setHashes _
    have crashed : ∀ a, l ≠ .crash a := fun a same => crashed ⟨a, same⟩
    have linked : ∀ k, l ≠ .attached k true := by
      rintro k rfl
      cases named
    have moves := inv.cluster careful beside linked crashed clusterMoved
    cases l with
    | attach k => exact (inv.attach careful moves serves named).setHashes _
    | receive k => exact inv.receive careful moves serves named
    | crash a => exact absurd rfl (crashed a)
    | attached => cases named
    | start | choose | join | perform | announce | inform | suspect | drop | elect | takeOver =>
      cases named
      exact inv.setWriters moves (fun _ rests => rests.1) inv.busy serves fun _ _ => id
  · have moves : Moves s.Resting s.control.cluster control.cluster := by
      refine inv.base.step (fun _ rests => rests.2.2) ?_ ?_ ?_ ?_ ?_ clusterMoved <;> nofun
    exact still nofun (inv.setWriters moves (fun _ rests => rests.1) inv.busy (plain nofun)
      fun _ _ => id)
  · obtain ⟨current, settled, none⟩ := careful r now asked alone
    exact still nofun (inv.takeOver current settled none clusterMoved)
  · exact still other (inv.setWriters (.of_same inv.base server attaching)
      (fun _ rests => rests.1) inv.busy (plain other) fun _ _ => id)

end Control

/-! ## Steps of the thread with the write mutex -/

section Writers

variable {K : Bytes → Prop} {s s' : State} {p b : Address} {c : Cluster Address} {since : Nat}

/-- The primary is the only one, so its thread is the only one with a write mutex. -/
theorem Inv.setDisk (inv : Inv K s) (running : s.control.cluster.server p = some ⟨c, since⟩)
    (leads : c.role = .primary) {disk : Address → Replica} {w : Writer}
    (valid : ∀ b, (disk b).storage.Valid) (within : ∀ b, (disk b).storage.Within K)
    (holds : ∀ b, s.current b = true → s.Holds (disk b).storage)
    (leading : Leading { s with disk } p c w) :
    Inv K { s with disk, writer := update s.writer p w } where
  base := inv.base
  valid := valid
  within := within
  holds := holds
  primary q server found leads' := by
    cases inv.base.only p q _ server running found leads leads'
    cases running.symm.trans found
    dsimp only
    rw [update_self]
    exact leading.mono rfl (fun _ => id) (fun _ _ => id) (fun _ => .inl) rfl
  busy q busy := by
    by_cases here : q = p
    · rw [here]
      exact ⟨_, running, leads⟩
    · dsimp only at busy
      rw [update_of_ne here] at busy
      exact inv.busy q busy
  accepted := inv.accepted
  late := inv.late

theorem Inv.setWriter (inv : Inv K s) (running : s.control.cluster.server p = some ⟨c, since⟩)
    (leads : c.role = .primary) {w : Writer} (leading : Leading s p c w) :
    Inv K (s.setWriter p w) :=
  inv.setDisk running leads inv.valid inv.within inv.holds leading

/-- Whoever serves the primary's link is another server. -/
theorem ne_of_serves (inv : Inv K s) (running : s.control.cluster.server p = some ⟨c, since⟩)
    (leads : c.role = .primary) (serves : s.serves b p = true) : b ≠ p := by
  rintro rfl
  obtain ⟨server, found, link, -⟩ := State.serves_iff.mp serves
  cases running.symm.trans found
  cases ((inv.base.sober b _ running).2 leads).symm.trans link

theorem storage_applyOn (s : State) (b : Address) (change : Change) (a : Address) :
    ((s.applyOn b change).disk a).storage =
      if a = b then ((s.disk b).storage.change change).1 else (s.disk a).storage := by
  dsimp only [State.applyOn]
  by_cases here : a = b
  · rw [if_pos here, here, update_self, ((s.disk b).apply_storage change).1]
  · rw [if_neg here, update_of_ne here]

/-- What a server has after a change that is not older than what was acknowledged. -/
theorem Inv.applied (inv : Inv K s) {change : Change} (within : change.Within K)
    (kept : s.current b = true → s.Kept change) (a : Address) :
    ((s.applyOn b change).disk a).storage.Valid ∧ ((s.applyOn b change).disk a).storage.Within K ∧
      (s.current a = true → s.Holds ((s.applyOn b change).disk a).storage) := by
  rw [storage_applyOn]
  split
  · rename_i here
    exact ⟨(inv.valid b).change change, (inv.within b).change within, fun current =>
      (inv.holds b (here ▸ current)).apply (kept (here ▸ current))⟩
  · exact ⟨inv.valid a, inv.within a, inv.holds a⟩

/-- A server that serves the primary's link applies a change. -/
theorem Inv.applyOn (inv : Inv K s) (running : s.control.cluster.server p = some ⟨c, since⟩)
    (leads : c.role = .primary) {change : Change} {w : Writer} (serves : s.serves b p = true)
    (copies : (s.disk p).storage.Copies change)
    (pending : ∀ id b u q, s.serves b p = false → (s.writer p).Pending id b u q →
      w.Pending id b u q) (held : WriterInv (s.applyOn b change) p c w) :
    Inv K ((s.applyOn b change).setWriter p w) := by
  have leading := inv.primary p _ running leads
  have kept := (inv.holds p leading.current).kept copies
  have applied := inv.applied (b := b) ((inv.within p).of_copies copies) fun _ => kept
  have mine : ((s.applyOn b change).disk p).storage = (s.disk p).storage := by
    rw [storage_applyOn, if_neg (ne_of_serves inv running leads serves).symm]
  have stored : Inv K { s with disk := (s.applyOn b change).disk, writer := update s.writer p w } :=
    inv.setDisk running leads (fun a => (applied a).1) (fun a => (applied a).2.1)
      (fun a => (applied a).2.2) ⟨leading.current, leading.settled,
        leading.behind.mono (fun _ => id) (fun _ _ => id) (fun _ => .inl) mine pending,
        held.mono (fun _ => id) (fun _ _ => id) fun _ _ => rfl⟩
  exact stored.setHashes _

/-- What a late change makes of a linked server. -/
theorem content?_deliver {a : Address} {change : Change} {w : Writer} (behind : Behind s p c w)
    (mem : (a, change) ∈ s.late) {id : UInt32} (present : c.links[id]? = some b) (u q : Bytes) :
    ((s.applyOn a change).disk b).storage.content? u q = (s.disk b).storage.content? u q ∨
      ((s.applyOn a change).disk b).storage.content? u q = (s.disk p).storage.content? u q ∨
        w.Pending id b u q := by
  rw [storage_applyOn]
  split
  · rename_i here
    subst here
    rcases Storage.content?_change (s.disk b).storage change u q with same | brings
    · exact .inl same
    · obtain ⟨-, brought⟩ := behind (b, change) mem id present
      exact .inr ((brought u q _ brings).imp_left Eq.symm)
  · exact .inl rfl

/-- The linked servers stay as they have to be when a late change is applied. -/
theorem WriterInv.deliver {a : Address} {change : Change} {late : List (Address × Change)}
    {w : Writer} (held : WriterInv s p c w) (behind : Behind s p c w) (settled : s.Settled p)
    (mem : (a, change) ∈ s.late) (fewer : ∀ sent ∈ late, sent ∈ s.late) :
    WriterInv { s.applyOn a change with late } p c w := by
  have elsewhere : ∀ b, s.Settled b → ((s.applyOn a change).disk b).storage =
      (s.disk b).storage := fun b quiet => by
    rw [storage_applyOn, if_neg (quiet _ mem).symm]
  have mine := elsewhere p settled
  have still : ∀ b, s.Settled b → State.Settled { s.applyOn a change with late } b :=
    fun b quiet sent mem => quiet sent (fewer sent mem)
  have same : ∀ (id : UInt32) b, c.links[id]? = some b → (∀ u q, ¬w.Pending id b u q) →
      s.Same b p → State.Same { s.applyOn a change with late } b p := by
    intro id b present through same u q
    change ((s.applyOn a change).disk b).storage.content? u q =
      ((s.applyOn a change).disk p).storage.content? u q
    rw [mine]
    rcases content?_deliver behind mem present u q with before | now | pending
    · exact before.trans (same u q)
    · exact now
    · exact absurd pending (through u q)
  cases w with
  | free => exact fun id b present => same id b present (fun _ _ => not_false) (held id b present)
  | requesting =>
    exact ⟨held.1.trans (congrArg Storage.entries mine.symm), fun id b present =>
      same id b present (fun _ _ => not_false) (held.2 id b present)⟩
  | attached =>
    exact ⟨still _ held.1, held.2.1.trans (congrArg Storage.entries mine.symm), fun id b present =>
      same id b present (fun _ _ => not_false) (held.2.2 id b present)⟩
  | resyncing member todo =>
    obtain ⟨quiet, copies, goal, linked⟩ := held
    refine ⟨still _ quiet, fun next among => ?_, fun t applied => ?_, fun id b present =>
      (linked id b present).imp_left (same id b present fun _ _ => not_false)⟩
    · exact (congrArg (Storage.Copies · next) mine).mpr (copies next among)
    · dsimp only at applied ⊢
      rw [elsewhere _ quiet] at applied
      rw [mine]
      exact goal t applied
  | replicating user name file todo failed =>
    obtain ⟨names, content, linked⟩ := held
    refine ⟨names, ?_, fun id b present => ⟨fun u q other => ?_, ?_⟩⟩
    · exact (congrArg (Storage.content? · user name) mine).trans content
    · dsimp only
      rw [mine]
      rcases content?_deliver behind mem present u q with before | now | pending
      · exact before.trans ((linked id b present).1 u q other)
      · exact now
      · exact absurd pending.1 other
    · by_cases awaited : (id, b) ∈ todo ∨ id ∈ failed
      · exact .inr awaited
      · exact (linked id b present).2.imp_left
          (same id b present fun u q pending => awaited pending.2)
  | dropping user name failed =>
    intro id b present
    by_cases awaited : id ∈ failed
    · exact .inr awaited
    · exact (held id b present).imp_left (same id b present fun u q pending => awaited pending.2)

/-- A change sent over a link that was lost, or by a server that has crashed, is applied
after all. -/
theorem Inv.deliver {k : Nat} (inv : Inv K s) (stepped : step s (.deliver k) = some s') :
    Inv K s' := by
  simp only [Failover.step] at stepped
  split at stepped <;> cases stepped
  rename_i b change waiting
  have mem := List.mem_of_getElem? waiting
  obtain ⟨within, kept⟩ := inv.late _ mem
  have applied := inv.applied within kept
  have fewer : ∀ sent ∈ s.late.eraseIdx k, sent ∈ s.late := fun _ => List.mem_of_mem_eraseIdx
  refine ⟨inv.base, fun a => (applied a).1, fun a => (applied a).2.1, fun a => (applied a).2.2,
    fun p server running leads => ?_, inv.busy, inv.accepted,
    fun sent mem => inv.late sent (fewer sent mem)⟩
  have leading := inv.primary p server running leads
  have mine : ((s.applyOn b change).disk p).storage = (s.disk p).storage := by
    rw [storage_applyOn, if_neg (leading.settled _ mem).symm]
  exact ⟨leading.current, fun sent mem => leading.settled sent (fewer sent mem),
    leading.behind.mono fewer (fun _ _ => id) (fun _ => .inl) mine fun _ _ _ _ _ => id,
    leading.held.deliver leading.behind leading.settled mem fewer⟩

/-- It never is. -/
theorem Inv.abort {k : Nat} (inv : Inv K s) (stepped : step s (.abort k) = some s') : Inv K s' := by
  simp only [Failover.step] at stepped
  split at stepped <;> cases stepped
  have fewer : ∀ sent ∈ s.late.eraseIdx k, sent ∈ s.late := fun _ => List.mem_of_mem_eraseIdx
  exact { inv with
    late := fun sent mem => inv.late sent (fewer sent mem)
    primary := fun p server running leads =>
      (inv.primary p server running leads).mono rfl fewer (fun _ _ => id) (fun _ => .inl) rfl }

theorem exchange_cases {b : Address} {change : Change} {ok : Bool}
    (exchanged : s.exchange p b change = (s', ok)) :
    s.serves b p = true ∧ s' = s.applyOn b change ∧ ((s.disk b).storage.change change).2 = ok ∨
      s' = s ∧ ok = false := by
  rw [State.exchange] at exchanged
  split at exchanged <;> cases exchanged
  · exact .inl ⟨‹_›, rfl, ((s.disk b).apply_storage change).2.symm⟩
  · exact .inr ⟨rfl, rfl⟩

/-- A resync that has not ended gives the write mutex back. -/
theorem Leading.giveUp {member : ServerAddress} {todo : List Change}
    (leading : Leading s p c (.resyncing member todo)) : Leading s p c .free :=
  leading.free (decide_eq_true rfl)

/-- The link that comes next has failed. -/
theorem Leading.failed {user name : Bytes} {file : Option File} {link : UInt32 × Address}
    {todo : List (UInt32 × Address)} {failed : List UInt32}
    (leading : Leading s p c (.replicating user name file (link :: todo) failed)) :
    Leading s p c (.replicating user name file todo (failed ++ [link.1])) := by
  have later {id : UInt32} {b : Address} (rest : (id, b) ∈ link :: todo ∨ id ∈ failed) :
      (id, b) ∈ todo ∨ id ∈ failed ++ [link.1] := by
    rcases rest with mem | mem
    · rcases List.mem_cons.mp mem with now | mem
      · exact .inr (List.mem_append_right _ (List.mem_singleton.mpr (congrArg Prod.fst now)))
      · exact .inl mem
    · exact .inr (List.mem_append_left _ mem)
  obtain ⟨names, content, linked⟩ := leading.held
  refine ⟨leading.current, leading.settled, ?_, names, content, fun id b present => ?_⟩
  · exact leading.behind.mono (fun _ => id) (fun _ _ => id) (fun _ => .inl) rfl
      fun _ _ _ _ _ pending => pending.imp_right later
  · exact (linked id b present).imp_right fun reached => reached.imp_right later

/-- The next change of a resync. -/
theorem Inv.resync {member : ServerAddress} {change : Change} {todo : List Change} {ok : Bool}
    (inv : Inv K s) (running : s.control.cluster.server p = some ⟨c, since⟩)
    (leads : c.role = .primary) (writer : s.writer p = .resyncing member (change :: todo))
    (exchanged : s.exchange p (addressOf member) change = (s', ok)) :
    Inv K (s'.setWriter p (if ok then .resyncing member todo else .free)) := by
  have leading := inv.primary p _ running leads
  rw [writer] at leading
  obtain ⟨settled, copies, goal, linked⟩ := leading.held
  rcases exchange_cases exchanged with ⟨serves, rfl, answer⟩ | ⟨rfl, rfl⟩
  · have away : addressOf member ≠ p := ne_of_serves inv running leads serves
    have mine : ((s.applyOn (addressOf member) change).disk p).storage = (s.disk p).storage := by
      rw [storage_applyOn, if_neg away.symm]
    -- a backup with a link is left alone
    have same : ∀ b, s.Same b p → (b = addressOf member → ∀ d ∈ change :: todo,
        d.isAccount = true) → (s.applyOn (addressOf member) change).Same b p := by
      intro b same accounts
      rw [State.Same, mine, storage_applyOn]
      split
      · rename_i here
        rw [Storage.change_of_isAccount (accounts here change List.mem_cons_self), ← here]
        exact same
      · exact same
    refine inv.applyOn running leads serves (copies change List.mem_cons_self)
      (fun _ _ _ _ _ pending => ?_) ?_
    · rw [writer] at pending
      exact pending.elim
    cases ok with
    | false => exact fun id b present => same b (linked id b present).1 (linked id b present).2
    | true =>
      refine ⟨settled, fun d mem => ?_, fun t applied => ?_, fun id b present =>
        ⟨same b (linked id b present).1 (linked id b present).2, fun here d mem =>
          (linked id b present).2 here d (List.mem_cons_of_mem _ mem)⟩⟩
      · rw [mine]
        exact copies d (List.mem_cons_of_mem _ mem)
      · rw [mine]
        rw [storage_applyOn, if_pos rfl] at applied
        refine goal t ?_
        rw [Storage.changeAll, if_pos answer]
        exact applied
  · exact inv.setWriter running leads leading.giveUp

/-- The change is sent over the next link. -/
theorem Inv.replicate {user name : Bytes} {file : Option File} {link : UInt32 × Address}
    {todo : List (UInt32 × Address)} {failed : List UInt32} {ok : Bool} (inv : Inv K s)
    (running : s.control.cluster.server p = some ⟨c, since⟩) (leads : c.role = .primary)
    (writer : s.writer p = .replicating user name file (link :: todo) failed)
    (exchanged : s.exchange p link.2 (.ofEdit user name file) = (s', ok)) :
    Inv K (s'.setWriter p (.replicating user name file todo
      (if ok then failed else failed ++ [link.1]))) := by
  have leading := inv.primary p _ running leads
  rw [writer] at leading
  obtain ⟨names, content, linked⟩ := leading.held
  rcases exchange_cases exchanged with ⟨serves, rfl, answer⟩ | ⟨rfl, rfl⟩
  · have away : link.2 ≠ p := ne_of_serves inv running leads serves
    have mine : ((s.applyOn link.2 (.ofEdit user name file)).disk p).storage =
      (s.disk p).storage := by
      rw [storage_applyOn, if_neg away.symm]
    have copies := Storage.copies_ofEdit content
    refine inv.applyOn running leads serves copies (fun id b u q apart pending => ?_)
      ⟨names, by rw [mine]; exact content, fun id b present => ?_⟩
    · rw [writer] at pending
      refine pending.imp_right fun rest => rest.imp (fun later => ?_) fun failed => ?_
      · refine (List.mem_cons.mp later).resolve_left ?_
        rintro rfl
        exact Bool.false_ne_true (apart.symm.trans serves)
      · cases ok with
        | true => exact failed
        | false => exact List.mem_append_left _ failed
    obtain ⟨others, reached⟩ := linked id b present
    rw [State.Same, mine, storage_applyOn]
    by_cases here : b = link.2
    · subst here
      rw [if_pos rfl]
      refine ⟨fun u q other => (Storage.content?_change_of_ne other).trans (others u q other), ?_⟩
      cases ok with
      | true =>
        refine .inl fun u q => ?_
        rw [Storage.content?_change_ofEdit names.1 names.2 answer]
        split
        · rename_i here
          rw [here.1, here.2, content]
        · rename_i other
          exact others u q other
      | false =>
        rcases reached with same | later | failed
        · refine .inl fun u q => ?_
          rcases Storage.content?_change (s.disk link.2).storage (.ofEdit user name file) u q with
            before | brings
          · exact before.trans (same u q)
          · exact (copies u q _ brings).symm
        · rcases List.mem_cons.mp later with now | later
          · exact .inr (.inr (List.mem_append_right _
              (List.mem_singleton.mpr (congrArg Prod.fst now))))
          · exact .inr (.inl later)
        · exact .inr (.inr (List.mem_append_left _ failed))
    · rw [if_neg here]
      refine ⟨others, reached.imp_right fun rest => rest.imp (fun later => ?_) fun failed => ?_⟩
      · refine (List.mem_cons.mp later).resolve_left fun now => here (congrArg Prod.snd now)
      · cases ok with
        | true => exact failed
        | false => exact List.mem_append_left _ failed
  · exact inv.setWriter running leads leading.failed

/-- An exchange fails, and the server may have the change to apply, over a link that is
lost. -/
theorem Inv.lose {change : Change} {reached : Bool} {w : Writer} (inv : Inv K s)
    (running : s.control.cluster.server p = some ⟨c, since⟩) (leads : c.role = .primary)
    (copies : (s.disk p).storage.Copies change) (leading : Leading s p c w)
    (indifferent : WriterInv s p c w → ∀ cut late,
      WriterInv { s with cut, late } p c w)
    (lost : s.lose p b change reached = some s') : Inv K (s'.setWriter p w) := by
  rw [State.lose] at lost
  split at lost
  swap
  · cases lost
    exact inv.setWriter running leads leading
  split at lost <;> cases lost
  rename_i serves
  have away := ne_of_serves inv running leads serves
  -- a link that is cut is not served
  have fewer : ∀ a q, State.serves { s with cut := update s.cut b true } a q = true →
      s.serves a q = true ∧ a ≠ b := by
    intro a q served
    obtain ⟨server, found, link, uncut⟩ := State.serves_iff.mp served
    have other : a ≠ b := by
      rintro rfl
      dsimp only at uncut
      rw [update_self] at uncut
      cases uncut
    dsimp only at uncut
    rw [update_of_ne other] at uncut
    exact ⟨State.serves_iff.mpr ⟨server, found, link, uncut⟩, other⟩
  have behind : Behind { s with cut := update s.cut b true, late := s.late ++ [(b, change)] } p c
      w := by
    intro sent mem id present
    rcases List.mem_append.mp mem with old | new
    · obtain ⟨apart, brings⟩ := leading.behind sent old id present
      refine ⟨Bool.eq_false_iff.mpr fun now => ?_, brings⟩
      exact Bool.false_ne_true (apart.symm.trans (fewer _ _ now).1)
    · cases List.mem_singleton.mp new
      exact ⟨Bool.eq_false_iff.mpr fun now => (fewer _ _ now).2 rfl, fun u q version brings =>
        .inl (copies u q version brings)⟩
  have after : Leading { s with cut := update s.cut b true, late := s.late ++ [(b, change)] } p c
      w := by
    refine ⟨leading.current, fun sent mem => ?_, behind, indifferent leading.held _ _⟩
    rcases List.mem_append.mp mem with old | new
    · exact leading.settled sent old
    · cases List.mem_singleton.mp new
      exact away
  have now := inv.setWriter running leads leading
  refine { now with
    primary := fun q server found role => ?_
    late := fun sent mem => ?_ }
  · cases inv.base.only p q _ server running found leads role
    cases running.symm.trans found
    dsimp only [State.setWriter]
    rw [update_self]
    exact after.mono rfl (fun _ => id) (fun _ _ => id) (fun _ => .inl) rfl
  · rcases List.mem_append.mp mem with old | new
    · exact inv.late sent old
    · cases List.mem_singleton.mp new
      exact ⟨(inv.within p).of_copies copies, fun _ => (inv.holds p leading.current).kept copies⟩

theorem Inv.fail {reached : Bool} (inv : Inv K s)
    (stepped : step s (.fail p reached) = some s') : Inv K s' := by
  simp only [Failover.step, State.fail] at stepped
  split at stepped
  · rename_i member change todo writer
    obtain ⟨⟨c, since⟩, running, leads⟩ := inv.busy p (by rw [writer]; nofun)
    have leading := inv.primary p _ running leads
    rw [writer] at leading
    obtain ⟨t, lost, rfl⟩ := Option.map_eq_some_iff.mp stepped
    exact inv.lose running leads (leading.held.2.1 change List.mem_cons_self) leading.giveUp
      (fun held _ _ => held) lost
  · rename_i user name file link todo failed writer
    obtain ⟨⟨c, since⟩, running, leads⟩ := inv.busy p (by rw [writer]; nofun)
    have leading := inv.primary p _ running leads
    rw [writer] at leading
    obtain ⟨t, lost, rfl⟩ := Option.map_eq_some_iff.mp stepped
    exact inv.lose running leads (Storage.copies_ofEdit leading.held.2.1) leading.failed
      (fun held _ _ => held) lost
  · cases stepped

/-- The manifest is what the backup holds, when the hashes it has are right. -/
theorem afterManifest_cases (inv : Inv K s) (p : Address) {member : ServerAddress}
    (right : (s.hashes (addressOf member)).Right (s.disk (addressOf member)).storage)
    (locals : List (FileKey × FileInfo)) :
    s.afterManifest p member locals = .free ∨ s.afterManifest p member locals =
      .resyncing member (resyncChanges (s.disk p) locals
        (s.disk (addressOf member)).accounts.all (s.disk (addressOf member)).storage.entries) := by
  have valid := inv.valid (addressOf member)
  have listed : s.listed (addressOf member) = (s.disk (addressOf member)).storage.entries :=
    Hashes.report_entries right valid
  rw [State.afterManifest, listed]
  split
  · exact .inl rfl
  rename_i manifest built
  split
  swap
  · exact .inl rfl
  rename_i small
  rw [sendable, decide_eq_true_eq, length_buildManifest valid built] at small
  rw [(parses_manifest valid built small).run_self]
  exact .inr rfl

theorem Inv.manifest {member : ServerAddress} {locals : List (FileKey × FileInfo)} (inv : Inv K s)
    (apart : ∀ c d, K c → K d → fnv1a c = fnv1a d → c.length = d.length → c = d)
    (running : s.control.cluster.server p = some ⟨c, since⟩) (leads : c.role = .primary)
    (writer : s.writer p = .attached member locals)
    (right : (s.hashes (addressOf member)).Right (s.disk (addressOf member)).storage) :
    Inv K (s.setWriter p (s.afterManifest p member locals)) := by
  have leading := inv.primary p _ running leads
  rw [writer] at leading
  have free : Leading s p c .free := leading.free (decide_eq_true rfl)
  obtain ⟨settled, rfl, linked⟩ := leading.held
  rcases afterManifest_cases inv p right (s.disk p).storage.entries with ended | resyncing
  · rw [ended]
    exact inv.setWriter running leads free
  rw [resyncing]
  have pv := inv.valid p
  have bv := inv.valid (addressOf member)
  refine inv.setWriter running leads ⟨free.current, free.settled, free.behind, settled,
    fun d => Storage.copies_of_mem_resyncChanges pv bv, fun t applied u q => ?_,
    fun id b present => ⟨linked id b present, fun here d mem => ?_⟩⟩
  · rw [Storage.content?, changeAll_resync pv bv applied]
    exact resynced_content_iff.mpr (fun user path f g mine theirs same =>
      apart _ _ (inv.within (addressOf member) user path _ (by
        rw [Storage.content?, theirs, Option.map_some])) (inv.within p user path _ (by
          rw [Storage.content?, mine, Option.map_some])) same.1 same.2) u q
  · have same := linked id b present
    rw [here] at same
    exact isAccount_of_mem_resyncChanges pv bv same mem

/-- When `attach_replica` ends, no backup gets another link. -/
theorem serves_attached {control : Primaries.State} {k : Nat} {ok : Bool} {b : Address}
    (moved : Ids.step s.control.cluster (.attached k ok) = some control.cluster)
    (now : State.serves { s with control } b p = true) : s.serves b p = true := by
  obtain ⟨server, running, link, uncut⟩ := State.serves_iff.mp now
  rcases link_step moved running link with
    ⟨old, was, before⟩ | ⟨k, sender, primary, members, eq, -⟩
  · exact State.serves_iff.mpr ⟨old, was, before, uncut⟩
  · cases eq

/-- The link goes live: the backup has what the primary has. -/
theorem Inv.goLive {control : Primaries.State} {k : Nat} {m : ServerAddress} (inv : Inv K s)
    (call : s.control.cluster.attaching[k]? = some (p, m))
    (moved : Ids.step s.control.cluster (.attached k true) = some control.cluster)
    (writer : s.writer p = .resyncing m []) :
    Inv K ({ s with control }.setWriter p .free) := by
  obtain ⟨base, c, since, running, leads, stays, only⟩ := inv.base.goLive call moved
  have leading := inv.primary p _ running leads
  rw [writer] at leading
  obtain ⟨quiet, -, goal, same⟩ := leading.held
  have split : ∀ (id : UInt32) b, (c.links.insert m.id (addressOf m))[id]? = some b →
      b = addressOf m ∨ c.links[id]? = some b := by
    intro id b present
    rw [Map.getElem?_insert] at present
    split at present
    · exact .inl (Option.some.inj present).symm
    · exact .inr present
  have alone : ∀ q server, s.control.cluster.server q = some server →
      server.cluster.role = .primary → q = p := fun q server found role =>
    inv.base.only q p server _ found running role leads
  refine { inv with
    base := base, primary := fun q server found role => ?_, busy := fun q busy => ?_
    accepted := fun request mem => ?_ }
  · obtain ⟨rfl, links⟩ := only q server found role
    have free := leading.giveUp
    refine ⟨free.current, free.settled, fun sent mem id present => ?_, ?_⟩
    · rw [links] at present
      rcases split id _ present with here | before
      · exact absurd here (quiet sent mem)
      · dsimp only [State.setWriter]
        rw [update_self]
        obtain ⟨apart, brings⟩ := free.behind sent mem id before
        refine ⟨Bool.eq_false_iff.mpr fun now => ?_, brings⟩
        exact Bool.false_ne_true (apart.symm.trans (serves_attached moved now))
    · dsimp only [State.setWriter]
      rw [update_self]
      intro id b present
      rw [links] at present
      rcases split id b present with rfl | before
      · exact goal _ rfl
      · exact (same id b before).1
  · obtain ⟨here, was⟩ := busy_of_update busy
    obtain ⟨server, found, role⟩ := inv.busy q was
    exact absurd (alone q server found role) here
  · obtain ⟨⟨server, found, role⟩, valid⟩ := inv.accepted request mem
    rw [alone _ server found role]
    exact ⟨stays, valid⟩

/-- `attach_replica` fails, and gives the write mutex back if it has it. -/
theorem Inv.attachFailed {control : Primaries.State} {k : Nat} {member : ServerAddress}
    (inv : Inv K s)
    (moved : Ids.step s.control.cluster (.attached k false) = some control.cluster) :
    Inv K ({ s with control }.setWriter p
      (if (s.writer p).attaches member then .free else s.writer p)) := by
  have moves : Moves s.Resting s.control.cluster control.cluster := by
    refine inv.base.step (fun _ rests => rests.2.2) ?_ ?_ ?_ ?_ ?_ moved <;> nofun
  refine inv.setWriters moves (fun q rests => ?_) (fun q busy => ?_)
    (fun b q now => .inl (serves_attached moved now)) fun q c leading => ?_
  all_goals by_cases here : q = p
  · subst here
    rw [update_self, rests.1]
    rfl
  · rw [update_of_ne here]
    exact rests.1
  · subst here
    rw [update_self] at busy
    split at busy
    · exact absurd rfl busy
    · exact inv.busy q busy
  · rw [update_of_ne here] at busy
    exact inv.busy q busy
  · subst here
    rw [update_self]
    split
    · rename_i attaches
      exact leading.free attaches
    · exact leading
  · rw [update_of_ne here]
    exact leading

/-- `attach_replica` ends. -/
theorem Inv.attached {k : Nat} {ok : Bool} (inv : Inv K s)
    (stepped : step s (.attached k ok) = some s') : Inv K s' := by
  simp only [Failover.step] at stepped
  split at stepped
  swap
  · cases stepped
  rename_i p member control call moved
  rcases control_cases moved with ⟨l, eq, -, moved⟩ | ⟨a, eq, -⟩ | ⟨a, r, eq, -⟩ | ⟨other, -⟩
  swap; cases eq
  swap; cases eq
  swap; exact absurd rfl (other _)
  cases eq
  split at stepped
  · rename_i m writer _
    split at stepped <;> cases stepped
    rename_i own
    subst own
    exact inv.goLive call moved writer
  · cases stepped
  · cases stepped
    exact inv.attachFailed moved

theorem mem_recorded {user name : Bytes} {version : Option Bytes} {u q : Bytes}
    {versions : List (Option Bytes)} (known : s.recorded user name version u q = some versions) :
    (u = user ∧ q = name → version ∈ versions) ∧
      ∃ before, s.history u q = some before ∧ ∀ v ∈ before, v ∈ versions := by
  rw [State.recorded] at known
  split at known
  · obtain ⟨before, was, rfl⟩ := Option.map_eq_some_iff.mp known
    exact ⟨fun _ => List.mem_append_right _ (List.mem_singleton_self _), before, was,
      fun v => List.mem_append_left _⟩
  · rename_i other
    exact ⟨fun here => absurd here other, versions, known, fun _ => id⟩

theorem Inv.record (inv : Inv K s) (user name : Bytes) (version : Option Bytes) :
    Inv K { s with history := s.recorded user name version } where
  base := inv.base
  valid := inv.valid
  within := inv.within
  holds b current u q versions known := by
    obtain ⟨-, before, was, kept⟩ := mem_recorded known
    exact kept _ (inv.holds b current u q before was)
  primary p server running leads :=
    (inv.primary p server running leads).mono rfl (fun _ => id) (fun _ _ => id) (fun _ => .inl) rfl
  busy := inv.busy
  accepted := inv.accepted
  late sent mem := by
    refine ⟨(inv.late sent mem).1, fun current u q v brings versions known => ?_⟩
    obtain ⟨-, before, was, kept⟩ := mem_recorded known
    exact kept _ ((inv.late sent mem).2 current u q v brings before was)

/-- A server takes a change on as the primary. -/
theorem Inv.accept {request : Request} (inv : Inv K s)
    (content : ∀ file, request.file = some file → K file.content)
    (stepped : step s (.accept request) = some s') : Inv K s' := by
  simp only [Failover.step, State.accept] at stepped
  split at stepped
  swap
  · cases stepped
  rename_i c since running
  split at stepped <;> cases stepped
  rename_i allowed
  refine { inv with
    primary := fun p server running leads => (inv.primary p server running leads).mono rfl
      (fun _ => id) (fun _ _ => id) (fun _ => .inl) rfl
    accepted := fun other mem => ?_ }
  rcases List.mem_append.mp mem with old | new
  · exact inv.accepted other old
  · cases List.mem_singleton.mp new
    exact ⟨⟨_, running, allowed.1⟩, allowed.2.1, allowed.2.2, content⟩

/-- `handle_upload` and `handle_delete`, up to the replication. -/
theorem Inv.write {user name : Bytes} {file : Option File} (inv : Inv K s)
    (running : s.control.cluster.server p = some ⟨c, since⟩) (leads : c.role = .primary)
    (userValid : isValidUsername user = true) (nameValid : isValidPath name = true)
    (content : ∀ f, file = some f → K f.content) (stepped : s.write p user name file = some s') :
    Inv K s' := by
  simp only [State.write, running] at stepped
  split at stepped
  swap
  · cases stepped
  rename_i same free
  cases same
  have leading := inv.primary p _ running leads
  rw [free] at leading
  have held : Linked c fun _ b => s.Same b p := leading.held
  -- the store of the primary alone changes
  have stored : ∀ b, (update s.disk p { s.disk p with
      storage := ((s.disk p).storage.edit user name file).1 } b).storage =
        if b = p then ((s.disk p).storage.edit user name file).1 else (s.disk b).storage := by
    intro b
    by_cases here : b = p
    · rw [if_pos here, here, update_self]
    · rw [if_neg here, update_of_ne here]
  have mine := (stored p).trans (if_pos rfl)
  have valid : ∀ b, (update s.disk p { s.disk p with
      storage := ((s.disk p).storage.edit user name file).1 } b).storage.Valid := by
    intro b
    rw [stored]
    split
    · exact (inv.valid p).edit userValid nameValid
    · exact inv.valid b
  have within : ∀ b, (update s.disk p { s.disk p with
      storage := ((s.disk p).storage.edit user name file).1 } b).storage.Within K := by
    intro b
    rw [stored]
    split
    · exact (inv.within p).edit content
    · exact inv.within b
  split at stepped <;> cases stepped
  · rename_i ok
    refine ((inv.record user name (file.map File.content)).setDisk running leads valid within
      (fun b now u q versions known => ?_) (w := .replicating user name file c.links.toList [])
      ⟨leading.current, leading.settled, fun sent mem id present => ?_,
        ⟨userValid, nameValid⟩, ?_, fun id b present => ?_⟩).setHashes _
    · obtain ⟨written, before, was, kept⟩ := mem_recorded known
      rw [stored]
      split
      · rename_i here
        rw [Storage.content?_edit ok]
        split
        · rename_i there
          exact written there
        · exact kept _ (inv.holds p leading.current u q before was)
      · exact kept _ (inv.holds b now u q before was)
    · obtain ⟨apart, brings⟩ := leading.behind sent mem id present
      refine ⟨apart, fun u q version bring => ?_⟩
      dsimp only
      rw [mine, Storage.content?_edit ok]
      split
      · rename_i here
        exact .inr ⟨here, .inl (Map.mem_toList_iff.mpr present)⟩
      · exact .inl ((brings u q version bring).resolve_right not_false)
    · rw [mine, Storage.content?_edit ok, if_pos ⟨rfl, rfl⟩]
    · refine ⟨fun u q other => ?_, .inr (.inl (Map.mem_toList_iff.mpr present))⟩
      rw [mine, stored, Storage.content?_edit ok, if_neg other]
      split
      · rw [Storage.content?_edit ok, if_neg other]
      · exact held id b present u q
  · rename_i failed
    have failed := Bool.eq_false_iff.mpr failed
    have unchanged : ∀ b u q, (update s.disk p { s.disk p with
        storage := ((s.disk p).storage.edit user name file).1 } b).storage.content? u q =
          (s.disk b).storage.content? u q := by
      intro b u q
      rw [stored]
      split
      · rename_i here
        rw [Storage.content?_edit_of_fail failed, here]
      · rfl
    have after := inv.setDisk (w := .free) running leads valid within
      (fun b now u q versions known => by
        rw [unchanged]
        exact inv.holds b now u q versions known)
      ⟨leading.current, leading.settled, fun sent mem id present =>
        (leading.behind sent mem id present).imp_right fun brings u q version bring =>
          (brings u q version bring).imp_left (unchanged p u q).trans,
        fun id b present u q =>
          (unchanged b u q).trans ((held id b present u q).trans (unchanged p u q).symm)⟩
    rw [← free, update_eq_self] at after
    exact after.setHashes _

/-- The change is acknowledged: the servers with a link have it. -/
theorem Inv.acknowledge {user name : Bytes} (inv : Inv K s)
    (running : s.control.cluster.server p = some ⟨c, since⟩) (leads : c.role = .primary)
    (writer : s.writer p = .dropping user name []) : Inv K (s.acknowledge p user name) := by
  have leading := inv.primary p _ running leads
  rw [writer] at leading
  have held : Linked c fun id b => s.Same b p ∨ id ∈ [] := leading.held
  have known : ∀ b, (decide (b = p) || s.linked p b) = true → b = p ∨ ∃ id : UInt32,
      c.links[id]? = some b := by
    intro b now
    rcases Bool.or_eq_true_iff.mp now with own | link
    · exact .inl (of_decide_eq_true own)
    · rw [State.linked, running] at link
      obtain ⟨⟨id, b'⟩, mem, here⟩ := List.any_eq_true.mp link
      cases of_decide_eq_true here
      exact .inr ⟨id, Map.mem_toList_iff.mp mem⟩
  have same : ∀ (id : UInt32) b, c.links[id]? = some b → s.Same b p := fun id b present =>
    (held id b present).resolve_right List.not_mem_nil
  -- what the primary has is what is acknowledged
  have holds : ∀ u q versions, (s.acknowledge p user name).history u q = some versions →
      (s.disk p).storage.content? u q ∈ versions := by
    intro u q versions recorded
    dsimp only [State.acknowledge] at recorded
    split at recorded
    · rename_i here
      cases recorded
      rw [here.1, here.2]
      exact List.mem_singleton_self _
    · exact inv.holds p leading.current u q versions recorded
  refine { inv with holds := fun b now => ?_, late := fun sent mem => ?_,
                    primary := fun q server found role => ?_, busy := fun q busy => ?_ }
  · have content : ∀ u q, (s.disk b).storage.content? u q = (s.disk p).storage.content? u q := by
      rcases known b now with rfl | ⟨id, present⟩
      · exact fun _ _ => rfl
      · exact same id b present
    intro u q versions recorded
    change (s.disk b).storage.content? u q ∈ versions
    rw [content]
    exact holds u q versions recorded
  · cases inv.base.only p q _ server running found leads role
    cases running.symm.trans found
    refine ⟨Bool.or_eq_true_iff.mpr (.inl (decide_eq_true rfl)), leading.settled, ?_, ?_⟩ <;>
      dsimp only [State.acknowledge] <;> rw [update_self]
    · exact leading.behind.mono (fun _ => id) (fun _ _ => id) (fun _ => .inl) rfl
        fun _ _ _ _ _ pending => List.not_mem_nil pending.2
    · exact same
  · exact inv.busy q (busy_of_update busy).2
  · refine ⟨(inv.late sent mem).1, fun now u q version brings versions recorded => ?_⟩
    rcases known sent.1 now with own | ⟨id, present⟩
    · exact absurd own (leading.settled sent mem)
    · have brought := ((leading.behind sent mem id present).2 u q version brings).resolve_right
        fun pending => List.not_mem_nil pending.2
      exact brought ▸ holds u q versions recorded

/-- `drop_link`, unless another thread has dropped the link before. -/
theorem Inv.dropLink (inv : Inv K s) (running : s.control.cluster.server p = some ⟨c, since⟩)
    (leads : c.role = .primary) (i : UInt32) {control : Primaries.State}
    (dropped : (Primaries.step s.control (.cluster (.drop p i))).getD s.control = control) :
    Inv K { s with control } ∧ ∃ c' since', control.cluster.server p = some ⟨c', since'⟩ ∧
      c'.role = .primary ∧ c'.links[i]? = none := by
  by_cases linked : i ∈ c.links
  · have moved : Ids.step s.control.cluster (.drop p i) =
        some ((s.control.cluster.put p ⟨c.takeLink i, since⟩).leave p [.remove i]) := by
      simp only [Ids.step, running, if_pos linked]
    simp only [Primaries.step, ofElection, moved, Option.map_some] at dropped
    subst dropped
    have moves : Moves s.Resting s.control.cluster
        ((s.control.cluster.put p ⟨c.takeLink i, since⟩).leave p [.remove i]) := by
      refine inv.base.step (fun _ rests => rests.2.2) (fun _ same => ?_) (fun _ same => ?_)
        (fun _ same => ?_) (fun _ same => ?_) (fun _ same => ?_) moved <;> cases same
    refine ⟨inv.setWriters moves (fun _ rests => rests.1) inv.busy (fun b q now => ?_)
      fun _ _ => id, c.takeLink i, since, update_self .., leads, ?_⟩
    · obtain ⟨server, found, link, uncut⟩ := State.serves_iff.mp now
      rcases link_step moved found link with ⟨old, was, before⟩ |
        ⟨k, sender, primary, members, eq, -⟩
      · exact .inl (State.serves_iff.mpr ⟨old, was, before, uncut⟩)
      · cases eq
    · change (c.links.erase i)[i]? = none
      rw [Map.getElem?_erase, if_pos rfl]
  · have stays : Ids.step s.control.cluster (.drop p i) = none := by
      simp only [Ids.step, running, if_neg linked]
    simp only [Primaries.step, ofElection, stays, Option.map_none, ite_self,
      Option.getD_none] at dropped
    subst dropped
    exact ⟨inv, c, since, running, leads, ExtTreeMap.getElem?_eq_none linked⟩

/-- The next link of those that failed is dropped. -/
theorem Inv.drop {user name : Bytes} {id : UInt32} {failed : List UInt32} (inv : Inv K s)
    (running : s.control.cluster.server p = some ⟨c, since⟩) (leads : c.role = .primary)
    (writer : s.writer p = .dropping user name (id :: failed)) :
    Inv K ({ s with control := (Primaries.step s.control (.cluster (.drop p id))).getD s.control
      }.setWriter p (.dropping user name failed)) := by
  obtain ⟨after, c', since', running', leads', gone⟩ := inv.dropLink running leads id rfl
  have leading := after.primary p _ running' leads'
  dsimp only at leading
  rw [writer] at leading
  -- the link is not there any more
  have later : ∀ (i : UInt32) b, c'.links[i]? = some b → i ∈ id :: failed → i ∈ failed := by
    intro i b present mem
    refine (List.mem_cons.mp mem).resolve_left ?_
    rintro rfl
    rw [gone] at present
    cases present
  refine after.setWriter running' leads' ⟨leading.current, leading.settled,
    fun sent mem i present => ?_, fun i b present => ?_⟩
  · refine (leading.behind sent mem i present).imp_right fun brings u q version bring => ?_
    exact (brings u q version bring).imp_right (And.imp_right (later i _ present))
  · exact (leading.held i b present).imp_right (later i b present)

/-- The thread that holds the write mutex goes on. -/
theorem Inv.proceed (inv : Inv K s)
    (apart : ∀ c d, K c → K d → fnv1a c = fnv1a d → c.length = d.length → c = d)
    (careful : Careful K s (.proceed p)) (stepped : s.proceed p = some s') : Inv K s' := by
  have primary : s.writer p ≠ .free → ∃ c since, s.control.cluster.server p = some ⟨c, since⟩ ∧
      c.role = .primary := fun busy => by
    obtain ⟨⟨c, since⟩, running, leads⟩ := inv.busy p busy
    exact ⟨c, since, running, leads⟩
  rw [State.proceed] at stepped
  cases writer : s.writer p with
  | free | requesting => rw [writer] at stepped; cases stepped
  | attached member locals =>
    obtain ⟨c, since, running, leads⟩ := primary (by rw [writer]; nofun)
    rw [writer] at stepped
    dsimp only at stepped
    split at stepped <;> cases stepped
    exact (inv.manifest apart running leads writer (careful member locals writer)).setHashes _
  | resyncing member todo =>
    obtain ⟨c, since, running, leads⟩ := primary (by rw [writer]; nofun)
    rw [writer] at stepped
    cases todo with
    | nil => cases stepped
    | cons change todo =>
      dsimp only at stepped
      split at stepped <;> cases stepped
      · exact inv.resync running leads writer rfl
      · have leading := inv.primary p _ running leads
        rw [writer] at leading
        exact inv.setWriter running leads leading.giveUp
  | replicating user name file todo failed =>
    obtain ⟨c, since, running, leads⟩ := primary (by rw [writer]; nofun)
    rw [writer] at stepped
    cases todo with
    | nil =>
      cases stepped
      have leading := inv.primary p _ running leads
      rw [writer] at leading
      refine inv.setWriter running leads ⟨leading.current, leading.settled, ?_,
        fun id b present => ?_⟩
      · exact leading.behind.mono (fun _ => id) (fun _ _ => id) (fun _ => .inl) rfl
          fun _ _ _ _ _ pending => pending.imp_right fun rest => rest.resolve_left List.not_mem_nil
      · exact (leading.held.2.2 id b present).2.imp_right fun rest =>
          rest.resolve_left List.not_mem_nil
    | cons link todo =>
      cases stepped
      exact inv.replicate running leads writer rfl
  | dropping user name failed =>
    obtain ⟨c, since, running, leads⟩ := primary (by rw [writer]; nofun)
    rw [writer] at stepped
    cases failed with
    | nil =>
      cases stepped
      exact inv.acknowledge running leads writer
    | cons id failed =>
      cases stepped
      exact inv.drop running leads writer

theorem Inv.step {label : Label} (inv : Inv K s)
    (apart : ∀ c d, K c → K d → fnv1a c = fnv1a d → c.length = d.length → c = d)
    (careful : Careful K s label) (stepped : step s label = some s') : Inv K s' := by
  cases label with
  | control label => exact inv.steer careful stepped
  | accept request => exact inv.accept careful stepped
  | write k =>
    simp only [Failover.step] at stepped
    split at stepped
    · cases stepped
    rename_i request waiting
    obtain ⟨⟨⟨c, since⟩, running, leads⟩, userValid, nameValid, content⟩ :=
      inv.accepted request (List.mem_of_getElem? waiting)
    have taken : Inv K { s with accepted := s.accepted.eraseIdx k } :=
      { inv with
        primary := fun p server running leads => (inv.primary p server running leads).mono rfl
          (fun _ => id) (fun _ _ => id) (fun _ => .inl) rfl
        accepted := fun other mem => inv.accepted other (List.mem_of_mem_eraseIdx mem) }
    exact taken.write running leads userValid nameValid content stepped
  | proceed p => exact inv.proceed apart careful stepped
  | fail p reached => exact inv.fail stepped
  | attached k ok => exact inv.attached stepped
  | deliver k => exact inv.deliver stepped
  | abort k => exact inv.abort stepped
  | look a listing =>
    simp only [Failover.step] at stepped
    split at stepped
    · cases stepped
    · obtain ⟨hashes, -, rfl⟩ := Option.map_eq_some_iff.mp stepped
      exact inv.setHashes _

end Writers

/-! ## Runs -/

/-- One primary runs, with no link, and nothing has been acknowledged. -/
theorem inv_init {K : Bytes → Prop} {a : Address} {disk : Address → Replica}
    (valid : ∀ b, (disk b).storage.Valid) (within : ∀ b, (disk b).storage.Within K) :
    Inv K (init a disk) := by
  have only : ∀ b server, (init a disk).control.cluster.server b = some server →
      b = a ∧ server.cluster = (Cluster.init a.1 a.2).startAsPrimary := by
    intro b server found
    dsimp only [init, Primaries.init, Ids.init] at found
    rcases update_cases found with ⟨here, ⟨⟩⟩ | ⟨-, ⟨⟩⟩
    exact ⟨here, rfl⟩
  have unlinked : ∀ holds : UInt32 → Address → Prop,
      Linked (Cluster.init a.1 a.2).startAsPrimary holds := by
    intro holds id b present
    cases present
  constructor
  case base =>
    refine ⟨fun b server found => ?_, ?_,
      fun b d server other found found' _ _ =>
        (only b server found).1.trans (only d other found').1.symm⟩
    · rw [(only b server found).2]
      exact ⟨fun away => absurd rfl away, fun _ => rfl⟩
    · rintro b (⟨call, mem, -⟩ | ⟨o, mem, -⟩ | ⟨task, mem, -⟩)
      · exact absurd mem List.not_mem_nil
      · exact absurd mem List.not_mem_nil
      · exact absurd mem List.not_mem_nil
  case valid => exact valid
  case within => exact within
  case holds => exact fun _ _ _ _ _ known => nomatch known
  case primary =>
    intro p server found _
    rw [(only p server found).2]
    exact ⟨rfl, fun _ mem => absurd mem List.not_mem_nil,
      fun _ mem => absurd mem List.not_mem_nil, unlinked _⟩
  case busy => exact fun _ busy => absurd rfl busy
  case accepted => exact fun _ mem => absurd mem List.not_mem_nil
  case late => exact fun _ mem => absurd mem List.not_mem_nil

/-- **An acknowledged change outlives the primary.** In every run in which only
servers take over that had a link whenever a change was acknowledged, every running
primary stores the latest acknowledged version of each path, or a later one. -/
theorem acknowledged_kept {K : Bytes → Prop} {a : Address} {disk : Address → Replica}
    {labels : List Label} {s : State}
    (apart : ∀ c d, K c → K d → fnv1a c = fnv1a d → c.length = d.length → c = d)
    (valid : ∀ b, (disk b).storage.Valid) (within : ∀ b, (disk b).storage.Within K)
    (careful : Meets step (Careful K) (init a disk) labels)
    (ran : run step (init a disk) labels = some s) : Durable s := by
  have inv : Inv K s := run_invariant (fun _ _ _ inv careful => inv.step apart careful)
    (inv_init valid within) careful ran
  exact fun p server running leads => inv.holds p (inv.primary p server running leads).1

section Examples

/-- A server that stores nothing. -/
def blank : Replica := ⟨∅, ∅⟩

/-- An upload that the first server accepts. -/
def upload : Request := ⟨port 0, bytes "ana", bytes "x", some (.single 1 0)⟩

/-- An upload is acknowledged while the server that joins later has no link; the
primary crashes before it attaches that one. -/
def unattached : List Label :=
  [.control (.cluster (.start (port 1))), .accept upload, .write 0, .proceed (port 0),
    .proceed (port 0), .control (.cluster (.choose (port 0) (port 1))),
    .control (.cluster (.join 0)), .control (.cluster (.receive 0)),
    .control (.cluster (.crash (port 0))), .control (.elect (port 1)), .control (.ask (port 1)),
    .control (.decide (port 1))]

/-- It takes over with an empty store. -/
theorem acknowledged_lost :
    ¬∀ (a : Address) (disk : Address → Replica) (labels : List Label) (s : State),
      (∀ b, (disk b).storage.Valid) → Meets step CrashOnly (init a disk) labels →
        run step (init a disk) labels = some s → Durable s := by
  intro claim
  obtain ⟨s, ran, role, known, missing⟩ : ∃ s, run step (init (port 0) fun _ => blank) unattached =
      some s ∧ (s.control.cluster.server (port 1)).map (·.cluster.role) = some .primary ∧
        s.history (bytes "ana") (bytes "x") = some [some [1]] ∧
          (s.disk (port 1)).storage.content? (bytes "ana") (bytes "x") = none :=
    ⟨_, rfl, by decide +kernel, by decide +kernel, by decide +kernel⟩
  obtain ⟨server, running, leads⟩ := Option.map_eq_some_iff.mp role
  have kept := claim _ _ _ s (fun _ => Storage.valid_empty) ?_ ran _ _ running leads _ _ _ known
  · rw [missing] at kept
    exact absurd kept (by decide)
  · exact ⟨trivial, trivial, trivial, trivial, trivial, trivial, trivial, trivial, trivial, trivial,
      trivial, trivial, trivial⟩

/-- The same upload, when the other server has been attached before. -/
def attachedBefore : List Label :=
  [.control (.cluster (.start (port 1))), .control (.cluster (.choose (port 0) (port 1))),
    .control (.cluster (.join 0)), .control (.cluster (.receive 0)),
    .control (.cluster (.attach 0)), .control (.cluster (.receive 0)), .proceed (port 0),
    .attached 0 true, .accept upload, .write 0, .proceed (port 0), .proceed (port 0),
    .proceed (port 0), .control (.cluster (.crash (port 0))), .control (.elect (port 1)),
    .control (.ask (port 1)), .control (.decide (port 1))]

/-- Between servers that store nothing there is nothing to send. -/
theorem proceed_blank {s : State} {p : Address} {member : ServerAddress}
    (disk : s.disk = fun _ => blank) (writer : s.writer p = .attached member [])
    (served : s.serves (addressOf member) p = true) :
    step s (.proceed p) = some ({ s with hashes := s.keepListed (addressOf member) }.setWriter p
      (.resyncing member [])) := by
  have listed : s.listed (addressOf member) = [] := by
    rw [State.listed, disk]
    rfl
  have written : writeManifest blank.accounts.all [] = some (List.replicate 8 0) := by
    decide +kernel
  have fits : sendable (List.replicate 8 0) = true := by decide
  have read : readManifest.run (List.replicate 8 0) = some (([], []), []) := by
    rfl
  have after : s.afterManifest p member [] = .resyncing member [] := by
    simp only [State.afterManifest, listed, disk, written, fits, read, if_true]
    rfl
  simp only [step, State.proceed, writer, served, after, if_true]

/-- The backup takes over with what was uploaded. -/
theorem acknowledged_kept_attached :
    ∃ s, run step (init (port 0) fun _ => blank) attachedBefore = some s ∧
      (s.control.cluster.server (port 1)).map (·.cluster.role) = some .primary ∧
        s.history (bytes "ana") (bytes "x") = some [some [1]] ∧ Durable s := by
  have reached : (run step (init (port 0) fun _ => blank) attachedBefore).map (fun s =>
      ((s.control.cluster.server (port 1)).map (·.cluster.role),
        s.history (bytes "ana") (bytes "x"))) = some (some .primary, some [some [1]]) := by
    decide +kernel
  obtain ⟨s, ran, both⟩ := Option.map_eq_some_iff.mp reached
  obtain ⟨role, known⟩ := Prod.ext_iff.mp both
  refine ⟨s, ran, role, known, acknowledged_kept (K := fun content => content = [1]) ?_
    (fun _ => Storage.valid_empty) (fun _ _ _ _ present => ?_) ?_ ran⟩
  · rintro c d rfl rfl - -
    rfl
  · rw [Storage.content?, blank, Storage.file?_empty] at present
    cases present
  refine ⟨trivial, trivial, trivial, ?_, ?_, ?_, Meets.cons ?_ (proceed_blank rfl rfl rfl)
    ⟨trivial, ?_, trivial, ?_, ?_, ?_, trivial, trivial, trivial, ?_, trivial⟩⟩
  · intro e waiting
    cases waiting
    intro server found leads
    cases found
    cases leads
  · rintro p member call
    cases call
    exact Hashes.right_of_empty _ []
  · intro e waiting
    cases waiting
    refine ⟨fun _ mem => absurd mem List.not_mem_nil, fun server found leads => ?_⟩
    cases found
    cases leads
  · rintro member locals writer
    cases writer
    exact Hashes.right_of_empty _ []
  · rintro file ⟨⟩
    rfl
  · rintro member locals ⟨⟩
  · rintro member locals ⟨⟩
  · rintro member locals ⟨⟩
  · rintro r - - -
    refine ⟨by decide +kernel, fun _ mem => absurd mem List.not_mem_nil, fun b server found => ?_⟩
    by_cases second : b = port 1
    · subst second
      cases found
      intro leads
      cases leads
    by_cases first : b = port 0
    · subst first
      cases found
    -- no step has started another server
    have before : ∀ {a : Address} {servers : Address → Option Server} {new : Option Server},
        b ≠ a → update servers a new b = some server → servers b = some server :=
      fun away found => (update_of_ne away ..).symm.trans found
    have attached := before second (before first (before first (before second found)))
    have chosen := before first (before first (before second attached))
    have started := before second chosen
    dsimp only [init, Primaries.init, Ids.init] at started
    rw [update_of_ne first] at started
    cases started

end Examples

end Failover

end SisOp
