import SisOp.Client.Reconcile
import SisOp.Lib.Run
import Mathlib.Logic.Function.Basic

/-!
# Two live sessions

Two sessions of one user on one server, none of whose connections fails. In each
client the worker thread runs `sync_local_change` on the paths its watcher
reports and the supervisor runs `handle_push` on what arrives over the sync
connection, one of the two at a time (`sync_mutex_`); on the server the thread
of each session commits an upload or delete under the write mutex, answers, and
then pushes the change to the other session, outside that mutex: a file is read
again when it is pushed.

Main result: `converged_of_quiescent`, when everything is delivered and
processed both sync_dirs and the server's copy have the same contents, in runs
in which no push was overtaken.
-/

namespace SisOp.Sessions

open Lib Std Function

/-! ## The system -/

inductive Side where
  | a | b
  deriving DecidableEq, Repr

/-- The other session. -/
def Side.other : Side → Side
  | .a => .b
  | .b => .a

@[simp] theorem Side.other_other (i : Side) : i.other.other = i := by cases i <;> rfl

theorem Side.other_ne (i : Side) : i.other ≠ i := by cases i <;> nofun

instance (p : Side → Prop) [DecidablePred p] : Decidable (∀ i, p i) :=
  decidable_of_iff (p .a ∧ p .b) ⟨fun both i => by cases i <;> simp [both],
    fun all => ⟨all _, all _⟩⟩

theorem Side.eq_or_eq_other (i j : Side) : j = i ∨ j = i.other := by
  cases i <;> cases j <;> first | exact .inl rfl | exact .inr rfl

/-- What a session asks of the server. -/
inductive Request where
  | upload (name : Bytes) (file : File)
  | delete (name : Bytes)
  deriving DecidableEq

def Request.name : Request → Bytes
  | .upload name _ => name
  | .delete name => name

/-- The file the path holds after it. -/
def Request.file? : Request → Option File
  | .upload _ file => some file
  | .delete _ => none

/-- What the server pushes to a session. -/
inductive Push where
  | file (name : Bytes) (file : File)
  | delete (name : Bytes)
  deriving DecidableEq

def Push.name : Push → Bytes
  | .file name _ => name
  | .delete name => name

/-- The content the path has after it. -/
def Push.content : Push → Option Bytes
  | .file _ sent => some sent.content
  | .delete _ => none

/-- Where `sync_local_change` is: it found a changed file, or a missing one, or
waits for the reply to its upload (of the file it hashed) or delete. -/
inductive Worker where
  | idle
  | changed (name : Bytes) (here : FileInfo)
  | missing (name : Bytes)
  | waiting (name : Bytes) (here : Option FileInfo)
  deriving DecidableEq

/-- The one exchange under way on a command connection. -/
inductive Call where
  | idle
  | sent (request : Request)
  | received (request : Request)
  | decided (ok : Bool)
  | answered (ok : Bool)
  deriving DecidableEq

/-- What the server's thread of a session has committed and not yet pushed. -/
inductive Pending where
  | file (name : Bytes)
  | delete (name : Bytes)
  deriving DecidableEq

def Request.pending : Request → Pending
  | .upload name _ => .file name
  | .delete name => .delete name

/-- A session: `sync_dir`, the paths the watcher reported, and everything under
way between this client and the server. -/
structure Session where
  dir : SyncDir
  events : List Bytes
  worker : Worker
  call : Call
  pending : Option Pending
  pushes : List Push

structure State where
  server : UserDir
  session : Side → Session

inductive Label where
  | edit (i : Side) (name : Bytes) (file : File)
  | erase (i : Side) (name : Bytes)
  | begin (i : Side) (name : Bytes)
  | send (i : Side)
  | receive (i : Side)
  | commit (i : Side)
  | answer (i : Side)
  | push (i : Side)
  | finish (i : Side)
  | deliver (i : Side) (stamp : Stamp)

/-- The first half of `sync_local_change`: what there is to do about a path. -/
def lookAt (d : SyncDir) (name : Bytes) : Worker :=
  match d.localFile name, d.base[name]? with
  | some here, base => if base.any fun b => sameContent b here then .idle else .changed name here
  | none, some _ => .missing name
  | none, none => .idle

/-- `handle_upload` and `handle_delete` under the write mutex: the server's copy
afterwards, whether the reply is `Ok`, and what to push. -/
def serve (server : UserDir) : Request → UserDir × Bool × Option Pending
  | .upload name file =>
    if isValidPath name then
      (server.put name file, (server.tree.put name file).2,
        if (server.tree.put name file).2 then some (.file name) else none)
    else (server, false, none)
  | .delete name =>
    if isValidPath name then
      (server.delete name, (server.tree.delete name).2,
        if (server.tree.delete name).2 then some (.delete name) else none)
    else (server, false, none)

/-- `push_file` and `push_delete`: what reaches the other session. -/
def pushed (server : UserDir) : Pending → List Push
  | .file name =>
    match server.tree.file? name with
    | some file => [.file name file]
    | none => [] -- `NotSent`
  | .delete name => [.delete name]

/-- The saved state at the end of `sync_local_change`. -/
def recordSynced (base : ExtTreeMap Bytes FileInfo) (name : Bytes) (here : Option FileInfo)
    (ok : Bool) : ExtTreeMap Bytes FileInfo :=
  match here with
  | some h => if ok then base.insert name h else base
  | none => base.erase name

/-- `handle_push`. -/
def handlePush (d : SyncDir) (stamp : Stamp) : Push → SyncDir
  | .file name file => if isValidPath name then d.install name file stamp else d
  | .delete name =>
    if isValidPath name then ⟨(d.tree.delete name).1, d.base.erase name⟩ else d

/-- The watcher reports the conflicted copy `handle_push` made. -/
def copyEvents (d : SyncDir) (stamp : Stamp) : Push → List Bytes
  | .file name file =>
    if d.unsynced name (file.info name) then [conflictName d.tree name stamp] else []
  | .delete _ => []

def State.set (s : State) (i : Side) (session : Session) : State :=
  { s with session := update s.session i session }

@[simp] theorem State.session_set_self (s : State) (i : Side) (session : Session) :
    (s.set i session).session i = session := update_self ..

theorem State.session_set_of_ne {s : State} {i j : Side} {c : Session} (other : j ≠ i) :
    (s.set i c).session j = s.session j := update_of_ne other ..

def step (s : State) : Label → Option State
  | .edit i name file =>
    let c := s.session i
    if (c.dir.tree.put name file).2 then
      some (s.set i { c with dir := { c.dir with tree := (c.dir.tree.put name file).1 }
                             events := name :: c.events })
    else none
  | .erase i name =>
    let c := s.session i
    match c.dir.tree.file? name, c.dir.tree.unlink name with
    | some _, some tree =>
      some (s.set i { c with dir := { c.dir with tree }, events := name :: c.events })
    | _, _ => none
  | .begin i name =>
    let c := s.session i
    match c.worker with
    | .idle => some (s.set i { c with worker := lookAt c.dir name
                                      events := c.events.filter (· ≠ name) })
    | _ => none
  | .send i =>
    let c := s.session i
    match c.worker with
    | .changed name here =>
      match c.dir.tree.file? name with
      | some file => some (s.set i { c with worker := .waiting name (some here)
                                            call := .sent (.upload name file) })
      | none => some (s.set i { c with worker := .idle }) -- the file is gone: not sent
    | .missing name => some (s.set i { c with worker := .waiting name none
                                              call := .sent (.delete name) })
    | _ => none
  | .receive i =>
    let c := s.session i
    match c.call, c.pending with
    | .sent request, none => some (s.set i { c with call := .received request })
    | _, _ => none
  | .commit i =>
    let c := s.session i
    match c.call with
    | .received request =>
      let (server, ok, pending) := serve s.server request
      some { s.set i { c with call := .decided ok, pending } with server }
    | _ => none
  | .answer i =>
    let c := s.session i
    match c.call with
    | .decided ok => some (s.set i { c with call := .answered ok })
    | _ => none
  | .push i =>
    let c := s.session i
    match c.pending, c.call with
    | _, .decided _ => none -- the reply goes first
    | some pending, _ =>
      let s := s.set i { c with pending := none }
      let o := s.session i.other
      some (s.set i.other { o with pushes := o.pushes ++ pushed s.server pending })
    | none, _ => none
  | .finish i =>
    let c := s.session i
    match c.worker, c.call with
    | .waiting name here, .answered ok =>
      some (s.set i { c with dir := { c.dir with base := recordSynced c.dir.base name here ok }
                             worker := .idle, call := .idle })
    | _, _ => none
  | .deliver i stamp =>
    let c := s.session i
    match c.worker, c.pushes with
    | .idle, push :: pushes =>
      some (s.set i { c with dir := handlePush c.dir stamp push, pushes
                             events := copyEvents c.dir stamp push ++ c.events })
    | _, _ => none

/-! ## Convergence, and what it needs -/

/-- The server's content at a path. -/
def State.content? (s : State) (path : Bytes) : Option Bytes :=
  (s.server.tree.file? path).map File.content

/-- No request, reply or push is in flight and every local change is processed. -/
structure Quiescent (s : State) : Prop where
  events : ∀ i, (s.session i).events = []
  worker : ∀ i, (s.session i).worker = .idle
  call : ∀ i, (s.session i).call = .idle
  pending : ∀ i, (s.session i).pending = none
  pushes : ∀ i, (s.session i).pushes = []

instance : DecidablePred Quiescent := fun s =>
  decidable_of_iff (∀ i, (s.session i).events = [] ∧ (s.session i).worker = .idle ∧
      (s.session i).call = .idle ∧ (s.session i).pending = none ∧ (s.session i).pushes = [])
    ⟨fun all => ⟨fun i => (all i).1, fun i => (all i).2.1, fun i => (all i).2.2.1,
      fun i => (all i).2.2.2.1, fun i => (all i).2.2.2.2⟩,
    fun quiet i => ⟨quiet.events i, quiet.worker i, quiet.call i, quiet.pending i, quiet.pushes i⟩⟩

/-- Both sync_dirs have the server's (path → content) map. -/
def Converged (s : State) : Prop :=
  ∀ i path, (s.session i).dir.content? path = s.content? path

/-- No push of the path is queued for the session, and no deletion of it is
about to be. -/
def Undisturbed (s : State) (i : Side) (name : Bytes) : Prop :=
  (∀ push ∈ (s.session i).pushes, push.name ≠ name) ∧
    (s.session i.other).pending ≠ some (.delete name)

instance (s : State) (i : Side) (name : Bytes) : Decidable (Undisturbed s i name) :=
  inferInstanceAs (Decidable (_ ∧ _))

/-- Nothing is refused: uploads can be stored and received files installed, a
file that is sent is as it was hashed, and saved hashes are right where size
and modification time match. -/
def Accepted (K : Bytes → Prop) (s : State) : Label → Prop
  | .edit _ _ file => K file.content
  | .begin i name => (s.session i).dir.HashSaved name
  | .send i =>
    match (s.session i).worker with
    | .changed name here => ∀ file, (s.session i).dir.tree.file? name = some file →
        sameContent (file.info name) here = true
    | _ => True
  | .commit i =>
    match (s.session i).call with
    | .received (.upload name file) => (serve s.server (.upload name file)).2.1 = true
    | _ => True
  | .deliver i stamp =>
    match (s.session i).pushes with
    | .file name file :: _ => (s.session i).dir.installable name file stamp = true
    | _ => True
  | _ => True

instance (K : Bytes → Prop) [DecidablePred K] (s : State) : ∀ label, Decidable (Accepted K s label)
  | .edit _ _ file => inferInstanceAs (Decidable (K file.content))
  | .begin i name => inferInstanceAs (Decidable ((s.session i).dir.HashSaved name))
  | .send i =>
    match worker : (s.session i).worker with
    | .changed name here =>
      decidable_of_iff (((s.session i).dir.tree.file? name).all fun file =>
        sameContent (file.info name) here) (by simp only [Accepted, worker, Option.all_eq_true])
    | .idle | .missing _ | .waiting _ _ => isTrue (by simp only [Accepted, worker])
  | .commit i =>
    match call : (s.session i).call with
    | .received (.upload name file) =>
      decidable_of_iff ((serve s.server (.upload name file)).2.1 = true) (by
        simp only [Accepted, call])
    | .received (.delete _) | .idle | .sent _ | .decided _ | .answered _ =>
      isTrue (by simp only [Accepted, call])
  | .deliver i stamp =>
    match pushes : (s.session i).pushes with
    | .file name file :: _ =>
      decidable_of_iff ((s.session i).dir.installable name file stamp = true) (by
        simp only [Accepted, pushes])
    | .delete _ :: _ | [] => isTrue (by simp only [Accepted, pushes])
  | .erase _ _ | .receive _ | .answer _ | .push _ | .finish _ => isTrue trivial

/-- Nothing is overtaken: a change is committed only while no push of the path
is on its way to the session that made it. -/
def InTurn (s : State) : Label → Prop
  | .commit i =>
    match (s.session i).call with
    | .received request => (serve s.server request).2.1 = true → Undisturbed s i request.name
    | _ => True
  | _ => True

instance (s : State) : ∀ label, Decidable (InTurn s label)
  | .commit i =>
    match call : (s.session i).call with
    | .received request =>
      decidable_of_iff ((serve s.server request).2.1 = true → Undisturbed s i request.name) (by
        simp only [InTurn, call])
    | .idle | .sent _ | .decided _ | .answered _ => isTrue (by simp only [InTurn, call])
  | .edit _ _ _ | .erase _ _ | .begin _ _ | .send _ | .receive _ | .answer _ | .push _ | .finish _
  | .deliver _ _ => isTrue trivial

/-- Nothing is overtaken or refused. -/
def Orderly (K : Bytes → Prop) (s : State) (label : Label) : Prop :=
  Accepted K s label ∧ InTurn s label

instance (K : Bytes → Prop) [DecidablePred K] (s : State) (label : Label) :
    Decidable (Orderly K s label) := inferInstanceAs (Decidable (_ ∧ _))

/-! ## The invariant -/

/-- What is known of a file is of this content. -/
def Records (info : FileInfo) (content : Bytes) : Prop :=
  info.hash = fnv1a content ∧ info.size = content.length.toUInt64

/-- A saved entry is of this content, or there is neither. -/
def Matches : Option FileInfo → Option Bytes → Prop
  | some info, some content => Records info content
  | none, none => True
  | _, _ => False

/-- What the saved state will say of a path when `sync_local_change` is through. -/
def Session.target (c : Session) (p : Bytes) : Option FileInfo :=
  match c.worker with
  | .idle => c.dir.base[p]?
  | .changed name here | .waiting name (some here) => if p = name then some here else c.dir.base[p]?
  | .missing name | .waiting name none => if p = name then none else c.dir.base[p]?

/-- The saved state, with the reply to what the server has committed. -/
def Session.settled (c : Session) : ExtTreeMap Bytes FileInfo :=
  match c.worker, c.call with
  | .waiting name here, .decided ok | .waiting name here, .answered ok =>
    recordSynced c.dir.base name here ok
  | _, _ => c.dir.base

/-- The request is the one the worker waits for. -/
def Asks (name : Bytes) : Option FileInfo → Request → Prop
  | some here, .upload n file => n = name ∧ Records here file.content
  | none, .delete n => n = name
  | _, _ => False

/-- The worker and the exchange on its command connection agree. -/
def Agree : Worker → Call → Prop
  | .waiting name here, .sent request | .waiting name here, .received request =>
    Asks name here request
  | .waiting _ here, .decided ok | .waiting _ here, .answered ok => here ≠ none → ok = true
  | .waiting _ _, .idle => False
  | _, call => call = .idle

/-- What a session was told last of a path, by push or reply, is what the server
has. -/
def Told (content : Bytes → Option Bytes) (c : Session) (p : Bytes) : Prop :=
  match (c.pushes.filter fun push => push.name = p).getLast? with
  | some push => content p = push.content
  | none => Matches c.settled[p]? (content p)

/-- One session, when the server's copy has these contents and the other
session's thread still has this to push. -/
structure SessionInv (K : Bytes → Prop) (content : Bytes → Option Bytes)
    (pending : Option Pending) (c : Session) : Prop where
  files : ∀ p x, c.dir.content? p = some x → K x
  uploads : ∀ name file, c.call = .sent (.upload name file) ∨
    c.call = .received (.upload name file) →
    K file.content
  pushed : ∀ name file, .file name file ∈ c.pushes → K file.content
  names : ∀ push ∈ c.pushes, isValidPath push.name = true
  agree : Agree c.worker c.call
  ready : ∀ request, c.call = .received request → c.pending = none
  local_ : ∀ p, p ∈ c.events ∨ Matches (c.target p) (c.dir.content? p)
  deleted : ∀ p, pending = some (.delete p) → content p = none
  told : ∀ p, pending ≠ some (.delete p) → (pending = some (.file p) → content p = none) →
    Told content c p

structure Inv (K : Bytes → Prop) (s : State) : Prop where
  files : ∀ p x, s.content? p = some x → K x
  names : ∀ p, s.server.tree.file? p ≠ none → isValidPath p = true
  pending : ∀ i name, (s.session i).pending = some (.file name) → isValidPath name = true
  deleting : ∀ i name, (s.session i).pending = some (.delete name) → isValidPath name = true
  session : ∀ i, SessionInv K s.content? (s.session i.other).pending (s.session i)

variable {K : Bytes → Prop} {s s' : State} {i : Side} {c : Session}

theorem records_info (name : Bytes) (file : File) : Records (file.info name) file.content :=
  ⟨rfl, rfl⟩

/-- Contents that are told apart and recorded alike are equal. -/
theorem eq_of_matches (apart : ∀ c d, K c → K d → fnv1a c = fnv1a d → c.length = d.length → c = d)
    {info : Option FileInfo} {f g : Option File} (left : Matches info (f.map File.content))
    (right : Matches info (g.map File.content)) (knownF : ∀ c, f.map File.content = some c → K c)
    (knownG : ∀ c, g.map File.content = some c → K c) :
    f.map File.content = g.map File.content := by
  cases info with
  | none =>
    cases f with
    | some f => cases left
    | none =>
      cases g with
      | some g => cases right
      | none => rfl
  | some info =>
    cases f with
    | none => cases left
    | some f =>
      cases g with
      | none => cases right
      | some g =>
        have size : f.content.length = g.content.length := by
          rw [← f.toNat_size, ← g.toNat_size]
          exact congrArg UInt64.toNat (left.2.symm.trans right.2)
        exact congrArg some
          (apart _ _ (knownF _ rfl) (knownG _ rfl) (left.1.symm.trans right.1) size)

theorem Inv.converged (apart : ∀ c d, K c → K d → fnv1a c = fnv1a d → c.length = d.length → c = d)
    (inv : Inv K s) (quiet : Quiescent s) : Converged s := by
  intro i p
  have here := inv.session i
  have synced := (here.local_ p).resolve_left (by rw [quiet.events]; exact List.not_mem_nil)
  have told := here.told p (by rw [quiet.pending]; nofun) (by rw [quiet.pending]; nofun)
  simp only [Session.target, quiet.worker] at synced
  simp only [Told, Session.settled, quiet.pushes, quiet.worker, List.filter_nil,
    List.getLast?_nil] at told
  exact eq_of_matches apart synced told (here.files p) (inv.files p)

/-! ## Steps of one session -/

section SessionSteps

variable {content : Bytes → Option Bytes} {pending : Option Pending} {name : Bytes}

/-- The user changes one file. -/
theorem SessionInv.edited (inv : SessionInv K content pending c) {tree : FileTree Bytes File}
    (other : ∀ q, q ≠ name → tree.file? q = c.dir.tree.file? q)
    (known : ∀ f, tree.file? name = some f → K f.content) :
    SessionInv K content pending
      { c with dir := { c.dir with tree }, events := name :: c.events } :=
  { inv with
    files := fun p x present => by
      by_cases here : p = name
      · subst p
        obtain ⟨f, file, rfl⟩ := Option.map_eq_some_iff.mp present
        exact known f file
      · exact inv.files p x (by rw [SyncDir.content?, ← other p here]; exact present)
    local_ := fun p => by
      by_cases here : p = name
      · exact .inl (List.mem_cons.mpr (.inl here))
      · refine (inv.local_ p).imp (List.mem_cons_of_mem _) fun synced => ?_
        rw [SyncDir.content?, other p here]
        exact synced }

/-- Nothing is under way on the command connection of a worker that is not
waiting. -/
theorem SessionInv.call_idle (inv : SessionInv K content pending c)
    (free : ∀ name here, c.worker ≠ .waiting name here) : c.call = .idle := by
  have agree := inv.agree
  cases worker : c.worker with
  | waiting name here => exact absurd worker (free name here)
  | idle | changed | missing =>
    rw [worker] at agree
    cases call : c.call <;> rw [call] at agree <;> cases agree

/-- What `sync_local_change` finds out about a path. -/
theorem matches_lookAt (d : SyncDir) (saved : d.HashSaved name) :
    match lookAt d name with
    | .idle => Matches d.base[name]? (d.content? name)
    | .changed n here => n = name ∧ Matches (some here) (d.content? name)
    | .missing n => n = name ∧ Matches none (d.content? name)
    | .waiting _ _ => False := by
  unfold lookAt SyncDir.content? SyncDir.localFile
  cases file : d.tree.file? name with
  | none =>
    cases entry : d.base[name]? with
    | none => trivial
    | some base => exact ⟨rfl, trivial⟩
  | some f =>
    rw [Option.map_some, Option.map_some, SyncDir.fillHash_eq saved file]
    dsimp only
    split
    · rename_i same
      split at same
      · rename_i known
        obtain ⟨base, entry, same⟩ := (Option.any_eq_true _ _).mp known
        rw [entry]
        exact sameContent_iff.mp same
      · cases same
    · rename_i n here found
      split at found <;> cases found
      exact ⟨rfl, records_info name f⟩
    · rename_i found
      split at found <;> cases found
    · rename_i found
      split at found <;> cases found

/-- `sync_local_change` begins. -/
theorem SessionInv.begin (inv : SessionInv K content pending c) (idle : c.worker = .idle)
    (saved : c.dir.HashSaved name) :
    SessionInv K content pending
      { c with worker := lookAt c.dir name, events := c.events.filter (· ≠ name) } := by
  have call := inv.call_idle (by rw [idle]; nofun)
  have found := matches_lookAt c.dir saved
  have settled : Session.settled { c with worker := lookAt c.dir name,
                                          events := c.events.filter (· ≠ name) } = c.settled := by
    simp only [Session.settled, call, idle]
    cases lookAt c.dir name <;> rfl
  refine { inv with agree := ?_, local_ := fun p => ?_, told := fun p notDeleted notPushed => ?_ }
  · cases worker : lookAt c.dir name with
    | waiting => rw [worker] at found; cases found
    | idle | changed | missing => exact call
  · have before := inv.local_ p
    simp only [Session.target, idle] at before
    by_cases here : p = name
    · subst p
      refine .inr ?_
      simp only [Session.target]
      split at found <;> rename_i worker <;> simp only [worker]
      · exact found
      · rw [if_pos found.1.symm]
        exact found.2
      · rw [if_pos found.1.symm]
        exact found.2
      · cases found
    · refine before.imp (fun mem => List.mem_filter.mpr ⟨mem, decide_eq_true here⟩) fun synced => ?_
      simp only [Session.target]
      split at found <;> rename_i worker <;> simp only [worker]
      · exact synced
      · rw [found.1, if_neg here]
        exact synced
      · rw [found.1, if_neg here]
        exact synced
      · cases found
  · have told := inv.told p notDeleted notPushed
    rwa [Told, settled]

/-- The worker sends what it found. -/
theorem SessionInv.send (inv : SessionInv K content pending c) (name : Bytes)
    (here : Option FileInfo) {request : Request} (asks : Asks name here request)
    (known : ∀ n file, request = .upload n file → K file.content)
    (free : ∀ name here, c.worker ≠ .waiting name here)
    (target : ∀ p, Session.target { c with worker := .waiting name here } p = c.target p) :
    SessionInv K content pending { c with
      worker := .waiting name here, call := .sent request } := by
  have call := inv.call_idle free
  have settled : Session.settled { c with worker := .waiting name here, call := .sent request } =
      c.settled := by
    simp only [Session.settled]
    cases worker : c.worker with
    | waiting n h => exact absurd worker (free n h)
    | idle | changed | missing => rfl
  refine { inv with agree := ?_, uploads := ?_, ready := nofun, local_ := fun p => ?_,
                    told := fun p notDeleted notPushed => ?_ }
  · rintro n file (sent | received)
    · cases sent
      exact known n file rfl
    · cases received
  · cases here <;> exact asks
  · exact (target p).symm ▸ inv.local_ p
  · have told := inv.told p notDeleted notPushed
    rwa [Told, settled]

/-- The file is gone when it would be sent. -/
theorem SessionInv.gone (inv : SessionInv K content pending c) {here : FileInfo}
    (changed : c.worker = .changed name here) (gone : c.dir.tree.file? name = none) :
    SessionInv K content pending { c with worker := .idle } := by
  have call := inv.call_idle (by rw [changed]; intro n h same; cases same)
  have settled : Session.settled { c with worker := .idle } = c.settled := by
    simp only [Session.settled, changed]
  refine { inv with agree := call, local_ := fun p => ?_,
                    told := fun p notDeleted notPushed => ?_ }
  · have before := inv.local_ p
    simp only [Session.target, changed] at before ⊢
    by_cases same : p = name
    · -- its removal has yet to be processed
      subst p
      rw [if_pos rfl, SyncDir.content?, gone] at before
      exact .inl (before.resolve_right id)
    · rwa [if_neg same] at before
  · have told := inv.told p notDeleted notPushed
    rwa [Told, settled]

theorem SessionInv.receive (inv : SessionInv K content pending c) {request : Request}
    (sent : c.call = .sent request) (ready : c.pending = none) :
    SessionInv K content pending { c with call := .received request } := by
  have agree := inv.agree
  rw [sent] at agree
  have settled : Session.settled { c with call := .received request } = c.settled := by
    simp only [Session.settled, sent]
    cases c.worker <;> rfl
  refine { inv with agree := ?_, uploads := ?_, ready := fun _ _ => ready,
                    told := fun p notDeleted notPushed => ?_ }
  · rintro n file (again | received)
    · cases again
    · cases received
      exact inv.uploads n file (.inl sent)
  · cases worker : c.worker with
    | waiting n h =>
      rw [worker] at agree
      exact agree
    | idle | changed | missing =>
      rw [worker] at agree
      cases agree
  · have told := inv.told p notDeleted notPushed
    rwa [Told, settled]

theorem SessionInv.answer (inv : SessionInv K content pending c) {ok : Bool}
    (decided : c.call = .decided ok) :
    SessionInv K content pending { c with call := .answered ok } := by
  have agree := inv.agree
  rw [decided] at agree
  have settled : Session.settled { c with call := .answered ok } = c.settled := by
    simp only [Session.settled, decided]
    cases c.worker <;> rfl
  refine { inv with agree := ?_, uploads := ?_, ready := nofun,
                    told := fun p notDeleted notPushed => ?_ }
  · rintro n file (sent | received)
    · cases sent
    · cases received
  · cases worker : c.worker with
    | waiting n h =>
      rw [worker] at agree
      exact agree
    | idle | changed | missing =>
      rw [worker] at agree
      cases agree
  · have told := inv.told p notDeleted notPushed
    rwa [Told, settled]

/-- The reply arrives: the saved state is what it was going to be. -/
theorem SessionInv.finish (inv : SessionInv K content pending c) {here : Option FileInfo}
    {ok : Bool} (waiting : c.worker = .waiting name here) (answered : c.call = .answered ok) :
    SessionInv K content pending
      { c with dir := { c.dir with base := recordSynced c.dir.base name here ok }
               worker := .idle, call := .idle } := by
  have agree := inv.agree
  rw [waiting, answered] at agree
  have settled : recordSynced c.dir.base name here ok = c.settled := by
    simp only [Session.settled, waiting, answered]
  have target : ∀ p, (recordSynced c.dir.base name here ok)[p]? = c.target p := by
    intro p
    simp only [Session.target, waiting]
    cases here with
    | some h =>
      rw [recordSynced, if_pos (agree (Option.some_ne_none h)), Map.getElem?_insert]
    | none => rw [recordSynced, Map.getElem?_erase]
  refine { inv with agree := rfl, uploads := ?_, ready := ?_,
                    local_ := fun p => ?_, told := fun p notDeleted notPushed => ?_ }
  · rintro n file (sent | received)
    · cases sent
    · cases received
  · intro request received
    cases received
  · refine (inv.local_ p).imp_right fun synced => ?_
    simp only [Session.target]
    rw [target p]
    exact synced
  · have told := inv.told p notDeleted notPushed
    rw [Told, ← settled] at told
    exact told

/-- What was told last of a path, once the first push is handled. -/
theorem told_tail {push : Push} {pushes : List Push} (idle : c.worker = .idle)
    (queued : c.pushes = push :: pushes) {dir : SyncDir} {events : List Bytes} {p : Bytes}
    (frame : p ≠ push.name → dir.base[p]? = c.dir.base[p]?)
    (here : p = push.name → Matches dir.base[p]? push.content)
    (told : Told content c p) : Told content { c with dir, events, pushes } p := by
  simp only [Told, Session.settled, idle, queued] at told ⊢
  by_cases same : push.name = p
  · rw [List.filter_cons_of_pos (by simpa using same)] at told
    cases rest : (pushes.filter fun push => push.name = p).getLast? with
    | some last =>
      rw [List.getLast?_cons, rest] at told
      exact told
    | none =>
      rw [List.getLast?_cons, rest] at told
      exact (show content p = push.content from told) ▸ here same.symm
  · rw [List.filter_cons_of_neg (by simpa using same)] at told
    rw [frame (Ne.symm same)]
    exact told

/-- `handle_push`. -/
theorem SessionInv.deliver (inv : SessionInv K content pending c) {push : Push}
    {pushes : List Push} {stamp : Stamp} (idle : c.worker = .idle)
    (queued : c.pushes = push :: pushes)
    (stored : ∀ name file, push = .file name file → c.dir.installable name file stamp = true) :
    SessionInv K content pending
      { c with dir := handlePush c.dir stamp push, pushes
               events := copyEvents c.dir stamp push ++ c.events } := by
  have call := inv.call_idle (by rw [idle]; nofun)
  have valid := inv.names push (queued ▸ List.mem_cons_self)
  have tail : ∀ other ∈ pushes, other ∈ c.pushes := fun _ mem => queued ▸ List.mem_cons_of_mem _ mem
  have synced : ∀ p, p ∈ c.events ∨ Matches c.dir.base[p]? (c.dir.content? p) := by
    intro p
    have before := inv.local_ p
    rwa [Session.target, idle] at before
  cases push with
  | file name file =>
    obtain ⟨arrived, recorded⟩ := SyncDir.install_stores (stored name file rfl)
    have known := inv.pushed name file (queued ▸ List.mem_cons_self)
    simp only [handlePush, show isValidPath name = true from valid, if_true, copyEvents]
    refine { inv with
      files := fun p x present => ?_
      pushed := fun n f mem => inv.pushed n f (tail _ mem)
      names := fun other mem => inv.names other (tail _ mem)
      local_ := fun p => ?_
      told := fun p notDeleted notPushed => told_tail idle queued
        (fun other => SyncDir.base_install_of_ne other)
        (fun here => ?_) (inv.told p notDeleted notPushed) }
    · obtain ⟨f, held, rfl⟩ := Option.map_eq_some_iff.mp present
      rcases SyncDir.exists_of_file?_install held with rfl | ⟨r, before⟩
      · exact known
      · exact inv.files r _ (by rw [SyncDir.content?, before, Option.map_some])
    · simp only [Session.target, idle]
      by_cases here : p = name
      · subst p
        rw [SyncDir.content?, arrived, recorded]
        exact .inr (records_info name file)
      · rw [SyncDir.content?, SyncDir.base_install_of_ne here]
        rcases SyncDir.file?_install_of_ne here with same | ⟨-, copy, changed⟩
        · rw [same]
          exact (synced p).imp_left (List.mem_append_right _)
        · rw [if_pos changed, copy]
          exact .inl (List.mem_append_left _ List.mem_cons_self)
    · rw [here]
      exact (congrArg (Matches · (some file.content)) recorded).mpr (records_info name file)
  | delete name =>
    simp only [handlePush, show isValidPath name = true from valid, if_true, copyEvents,
      List.nil_append]
    refine { inv with
      files := fun p x present => ?_
      pushed := fun n f mem => inv.pushed n f (tail _ mem)
      names := fun other mem => inv.names other (tail _ mem)
      local_ := fun p => ?_
      told := fun p notDeleted notPushed => told_tail idle queued
        (fun other => ?_) (fun here => ?_) (inv.told p notDeleted notPushed) }
    · rw [SyncDir.content?, FileTree.file?_delete] at present
      split at present
      · cases present
      · exact inv.files p x present
    · simp only [Session.target, idle, SyncDir.content?, Map.getElem?_erase, FileTree.file?_delete]
      by_cases here : p = name
      · rw [if_pos here, if_pos here]
        exact .inr trivial
      · rw [if_neg here, if_neg here]
        exact synced p
    · exact (Map.getElem?_erase ..).trans (if_neg other)
    · rw [here]
      simp only [Push.name, Map.getElem?_erase, if_true]
      trivial

end SessionSteps

/-! ## Commits and pushes -/

theorem name_of_asks {name : Bytes} {here : Option FileInfo} {request : Request}
    (asks : Asks name here request) : request.name = name := by
  cases here with
  | some h =>
    cases request with
    | upload n file => exact asks.1
    | delete n => cases asks
  | none =>
    cases request with
    | upload n file => cases asks
    | delete n => exact asks

section Commit

variable {server : UserDir} {request : Request}

theorem serve_ok (ok : (serve server request).2.1 = true) :
    isValidPath request.name = true ∧ (serve server request).2.2 = some request.pending ∧
      ∀ p, (serve server request).1.tree.file? p =
        if p = request.name then request.file? else server.tree.file? p := by
  cases request with
  | upload name file =>
    simp only [serve] at ok ⊢
    split at ok
    · rename_i valid
      simp only [if_pos valid]
      dsimp only at ok
      exact ⟨valid, if_pos ok, fun p => FileTree.file?_put ok p⟩
    · cases ok
  | delete name =>
    simp only [serve] at ok ⊢
    split at ok
    · rename_i valid
      simp only [if_pos valid]
      dsimp only at ok
      exact ⟨valid, if_pos ok, fun p => FileTree.file?_delete ..⟩
    · cases ok

theorem serve_refused (refused : (serve server request).2.1 = false)
    (valid : ∀ p, server.tree.file? p ≠ none → isValidPath p = true) :
    (serve server request).2.2 = none ∧
      (∀ p, (serve server request).1.tree.file? p = server.tree.file? p) ∧
      ∀ name, request = .delete name → server.tree.file? name = none := by
  cases request with
  | upload name file =>
    simp only [serve] at refused ⊢
    split at refused
    · rename_i named
      simp only [if_pos named]
      dsimp only at refused
      refine ⟨if_neg (by rw [refused]; exact Bool.false_ne_true), fun p => ?_, nofun⟩
      exact congrArg (FileTree.file? · p) (FileTree.put_of_fail refused)
    · rename_i unnamed
      simp only [if_neg unnamed]
      exact ⟨trivial, fun _ => trivial, nofun⟩
  | delete name =>
    simp only [serve] at refused ⊢
    split at refused
    · rename_i named
      simp only [if_pos named]
      dsimp only at refused
      refine ⟨if_neg (by rw [refused]; exact Bool.false_ne_true), fun p => ?_, ?_⟩
      · exact congrArg (FileTree.file? · p) (FileTree.delete_of_fail refused)
      · rintro _ ⟨⟩
        by_contra present
        obtain ⟨f, file⟩ := Option.ne_none_iff_exists'.mp present
        have node := FileTree.file?_eq_some_iff.mp file
        have deleted : (server.tree.delete name).2 = true :=
          FileTree.delete_ok_iff.mpr ⟨by rw [node]; nofun, FileTree.isDir_eq_false_iff.mpr (by
            rw [node]; nofun)⟩
        rw [deleted] at refused
        cases refused
    · rename_i unnamed
      simp only [if_neg unnamed]
      refine ⟨trivial, fun _ => trivial, ?_⟩
      rintro _ ⟨⟩
      by_contra present
      exact unnamed (valid name present)

end Commit

/-- A step of one session that leaves alone what it still has to push. -/
theorem Inv.set (inv : Inv K s) (pending : c.pending = (s.session i).pending)
    (session : SessionInv K s.content? (s.session i.other).pending c) : Inv K (s.set i c) := by
  have pendings : ∀ j, ((s.set i c).session j).pending = (s.session j).pending := by
    intro j
    by_cases here : j = i
    · subst j
      rw [State.session_set_self, pending]
    · rw [State.session_set_of_ne here]
  refine ⟨inv.files, inv.names, fun j name => ?_, fun j name => ?_, fun j => ?_⟩
  · rw [pendings]
    exact inv.pending j name
  · rw [pendings]
    exact inv.deleting j name
  · rw [pendings]
    by_cases here : j = i
    · subst j
      rw [State.session_set_self]
      exact session
    · rw [State.session_set_of_ne here]
      exact inv.session j

/-- A session and the server's copy change. -/
theorem Inv.setServer (inv : Inv K s) {server : UserDir}
    (files : ∀ p x, State.content? { s with server } p = some x → K x)
    (names : ∀ p, server.tree.file? p ≠ none → isValidPath p = true)
    (pushes : ∀ request : Request, c.pending = some request.pending →
      isValidPath request.name = true)
    (mine : SessionInv K (State.content? { s with server }) (s.session i.other).pending c)
    (theirs : SessionInv K (State.content? { s with server }) c.pending (s.session i.other)) :
    Inv K { s.set i c with server } := by
  have self : State.session { s.set i c with server } i = c := State.session_set_self ..
  have other : State.session { s.set i c with server } i.other = s.session i.other :=
    State.session_set_of_ne i.other_ne
  refine ⟨files, names, fun j n toPush => ?_, fun j n toPush => ?_, fun j => ?_⟩
  all_goals rcases i.eq_or_eq_other j with rfl | rfl
  · rw [self] at toPush
    exact pushes (.upload n ⟨[], 0, by decide⟩) toPush
  · rw [other] at toPush
    exact inv.pending _ n toPush
  · rw [self] at toPush
    exact pushes (.delete n) toPush
  · rw [other] at toPush
    exact inv.deleting _ n toPush
  · rw [other, self]
    exact mine
  · rw [Side.other_other, self, other]
    exact theirs

/-- What the session asked for, and what its saved state says meanwhile. -/
theorem SessionInv.waiting (inv : SessionInv K content pending c) {request : Request}
    (received : c.call = .received request) :
    c.settled = c.dir.base ∧
      ∃ name here, c.worker = .waiting name here ∧ Asks name here request := by
  have agree := inv.agree
  rw [received] at agree
  unfold Session.settled
  rw [received]
  cases worker : c.worker with
  | waiting name here =>
    rw [worker] at agree
    exact ⟨rfl, name, here, rfl, agree⟩
  | idle | changed | missing =>
    rw [worker] at agree
    cases agree

section Decided

variable {name p : Bytes} {here : Option FileInfo} {request : Request}

/-- The reply will record what was committed, -/
theorem matches_recordSynced (asks : Asks name here request) (base : ExtTreeMap Bytes FileInfo) :
    Matches (recordSynced base name here true)[request.name]? (request.file?.map File.content) := by
  cases here with
  | some h =>
    cases request with
    | upload n file =>
      obtain ⟨rfl, records⟩ := asks
      simp only [recordSynced, if_true, Request.name, Map.getElem?_insert, Request.file?]
      exact records
    | delete n => cases asks
  | none =>
    cases request with
    | upload n file => cases asks
    | delete n =>
      obtain rfl := asks
      simp only [recordSynced, Request.name, Map.getElem?_erase, if_true, Request.file?]
      trivial

/-- and nothing else. -/
theorem getElem?_recordSynced_of_ne (other : p ≠ name) (base : ExtTreeMap Bytes FileInfo)
    (ok : Bool) :
    (recordSynced base name here ok)[p]? = base[p]? := by
  cases here with
  | some h =>
    rw [recordSynced]
    split
    · rw [Map.getElem?_insert, if_neg other]
    · rfl
  | none => rw [recordSynced, Map.getElem?_erase, if_neg other]

/-- The session whose change was committed. -/
theorem SessionInv.accept (inv : SessionInv K content pending c)
    (received : c.call = .received request) {content' : Bytes → Option Bytes}
    (changed : ∀ p, content' p =
      if p = request.name then request.file?.map File.content else content p)
    (quiet : ∀ push ∈ c.pushes, push.name ≠ request.name)
    (noDelete : pending ≠ some (.delete request.name)) (push : Option Pending) :
    SessionInv K content' pending { c with call := .decided true, pending := push } := by
  obtain ⟨settled, name, here, waiting, asks⟩ := inv.waiting received
  have others : ∀ p, p ≠ request.name → content' p = content p := fun p distinct =>
    (changed p).trans (if_neg distinct)
  refine { inv with uploads := ?_, agree := ?_, ready := nofun,
                    deleted := fun p toDelete => ?_, told := fun p notDeleted notPushed => ?_ }
  · rintro n file (sent | received)
    · cases sent
    · cases received
  · rw [waiting]
    exact fun _ => rfl
  · by_cases same : p = request.name
    · exact absurd (same ▸ toDelete) noDelete
    · exact (others p same).trans (inv.deleted p toDelete)
  · simp only [Told, Session.settled, waiting]
    by_cases same : p = request.name
    · subst p
      rw [List.filter_eq_nil_iff.mpr fun push mem => by simpa using quiet push mem, changed,
        if_pos rfl]
      exact matches_recordSynced asks _
    · have before := inv.told p notDeleted fun toPush => by
        rw [← others p same]
        exact notPushed toPush
      rw [Told, settled] at before
      rw [others p same, getElem?_recordSynced_of_ne fun eq =>
        same (eq.trans (name_of_asks asks).symm)]
      exact before

/-- The other session, to which the change has yet to be pushed. -/
theorem SessionInv.overhear (inv : SessionInv K content none c) {content' : Bytes → Option Bytes}
    (changed : ∀ p, content' p =
      if p = request.name then request.file?.map File.content else content p) :
    SessionInv K content' (some request.pending) c := by
  refine { inv with deleted := fun p toDelete => ?_, told := fun p notDeleted notPushed => ?_ }
  · cases request <;> cases toDelete
    exact (changed _).trans (if_pos rfl)
  · by_cases same : p = request.name
    · subst p
      cases request with
      | upload n file =>
        have absent := notPushed rfl
        rw [changed, if_pos rfl] at absent
        cases absent
      | delete n => exact absurd rfl notDeleted
    · have before := inv.told p nofun nofun
      rw [Told] at before ⊢
      rwa [changed, if_neg same]

/-- The session whose deletion was refused: there was nothing to delete. -/
theorem SessionInv.refuse (inv : SessionInv K content pending c)
    (received : c.call = .received (.delete name)) (gone : content name = none)
    (push : Option Pending) :
    SessionInv K content pending { c with call := .decided false, pending := push } := by
  obtain ⟨settled, n, here, waiting, asks⟩ := inv.waiting received
  have missing : here = none := by
    cases here with
    | some h => cases asks
    | none => rfl
  subst missing
  obtain rfl := asks
  refine { inv with uploads := ?_, agree := ?_, ready := nofun,
                    told := fun p notDeleted notPushed => ?_ }
  · rintro n file (sent | received)
    · cases sent
    · cases received
  · rw [waiting]
    exact fun refused => absurd rfl refused
  · have before := inv.told p notDeleted notPushed
    rw [Told, settled] at before
    simp only [Told, Session.settled, waiting, recordSynced, Map.getElem?_erase]
    split
    · rename_i queued
      rw [queued] at before
      exact before
    · rename_i queued
      rw [queued] at before
      split
      · rename_i same
        subst p
        rw [gone]
        trivial
      · exact before

end Decided

/-- A change is committed. -/
theorem Inv.commit (inv : Inv K s) {request : Request}
    (received : (s.session i).call = .received request)
    (stored : ∀ name file, request = .upload name file → (serve s.server request).2.1 = true)
    (undisturbed : (serve s.server request).2.1 = true → Undisturbed s i request.name) :
    Inv K { s.set i { s.session i with
        call := .decided (serve s.server request).2.1,
          pending := (serve s.server request).2.2 } with
      server := (serve s.server request).1 } := by
  have mine := inv.session i
  have theirs := inv.session i.other
  rw [Side.other_other, mine.ready request received] at theirs
  cases ok : (serve s.server request).2.1 with
  | true =>
    obtain ⟨valid, pending, files⟩ := serve_ok ok
    obtain ⟨quiet, noDelete⟩ := undisturbed ok
    have content : ∀ p, State.content? { s with server := (serve s.server request).1 } p =
        if p = request.name then request.file?.map File.content else s.content? p := by
      intro p
      rw [State.content?, files]
      split <;> rfl
    rw [pending]
    refine inv.setServer (fun p x present => ?_) (fun p present => ?_) (fun other same => ?_)
      (mine.accept received content quiet noDelete _) (theirs.overhear content)
    · rw [content] at present
      split at present
      · cases request with
        | upload n file =>
          cases present
          exact mine.uploads n file (.inr received)
        | delete n => cases present
      · exact inv.files p x present
    · rw [files] at present
      split at present
      · rename_i same
        exact same ▸ valid
      · exact inv.names p present
    · cases request <;> cases other <;> cases same <;> exact valid
  | false =>
    obtain ⟨pending, files, gone⟩ := serve_refused ok inv.names
    have content : State.content? { s with server := (serve s.server request).1 } = s.content? := by
      funext p
      rw [State.content?, files, State.content?]
    cases request with
    | upload n file =>
      rw [stored n file rfl] at ok
      cases ok
    | delete n =>
      have absent : s.content? n = none := by
        rw [State.content?, gone n rfl, Option.map_none]
      rw [pending]
      refine inv.setServer (fun p x present => ?_) (fun p present => ?_) nofun ?_ ?_
      · rw [content] at present
        exact inv.files p x present
      · rw [files] at present
        exact inv.names p present
      · rw [content]
        exact mine.refuse received absent none
      · rw [content]
        exact theirs

theorem told_append_of_ne {content : Bytes → Option Bytes} {extra : List Push} {p : Bytes}
    (elsewhere : ∀ push ∈ extra, push.name ≠ p) (told : Told content c p) :
    Told content { c with pushes := c.pushes ++ extra } p := by
  have none' : extra.filter (fun push => push.name = p) = [] :=
    List.filter_eq_nil_iff.mpr fun push mem => by simpa using elsewhere push mem
  rw [Told, List.filter_append, none', List.append_nil]
  exact told

theorem told_append {content : Bytes → Option Bytes} (push : Push)
    (last : content push.name = push.content) :
    Told content { c with pushes := c.pushes ++ [push] } push.name := by
  have one : [push].filter (fun other => other.name = push.name) = [push] := by simp
  simp only [Told, List.filter_append, one, List.getLast?_append, List.getLast?_singleton,
    Option.some_or]
  exact last

/-- A session is pushed to: it is told what the server has now. -/
theorem SessionInv.push (pending : Pending) (inv : SessionInv K s.content? (some pending) c)
    (files : ∀ p x, s.content? p = some x → K x)
    (valid : ∀ push ∈ Sessions.pushed s.server pending, isValidPath push.name = true) :
    SessionInv K s.content? none
      { c with pushes := c.pushes ++ Sessions.pushed s.server pending } := by
  have names : ∀ push ∈ c.pushes ++ Sessions.pushed s.server pending,
      isValidPath push.name = true :=
    fun push mem => (List.mem_append.mp mem).elim (inv.names push) (valid push)
  cases pending with
  | file n =>
    have told : ∀ p, (p = n → s.content? p = none) → Told s.content? c p := fun p absent =>
      inv.told p nofun fun toPush => absent (by cases toPush; rfl)
    unfold Sessions.pushed at names ⊢
    dsimp only at names ⊢
    cases present : s.server.tree.file? n with
    | none =>
      simp only [List.append_nil]
      exact { inv with
        deleted := nofun
        told := fun p _ _ => told p (by rintro rfl; rw [State.content?, present, Option.map_none]) }
    | some f =>
      rw [present] at names
      have content : s.content? n = some f.content := by
        rw [State.content?, present, Option.map_some]
      refine { inv with pushed := fun name file mem => ?_, names, deleted := nofun,
                        told := fun p _ _ => ?_ }
      · rcases List.mem_append.mp mem with old | new
        · exact inv.pushed name file old
        · cases List.mem_singleton.mp new
          exact files n _ content
      · by_cases same : p = n
        · subst p
          exact told_append (.file n f) content
        · exact told_append_of_ne (fun push mem => List.mem_singleton.mp mem ▸ Ne.symm same)
            (told p fun eq => absurd eq same)
  | delete n =>
    refine { inv with pushed := fun name file mem => ?_, names, deleted := nofun,
                      told := fun p _ _ => ?_ }
    · rcases List.mem_append.mp mem with old | new
      · exact inv.pushed name file old
      · cases List.mem_singleton.mp new
    · by_cases same : p = n
      · subst p
        exact told_append (.delete n) (inv.deleted n rfl)
      · exact told_append_of_ne (fun push mem => List.mem_singleton.mp mem ▸ Ne.symm same)
          (inv.told p (fun toDelete => same (by cases toDelete; rfl)) nofun)

theorem Inv.push (inv : Inv K s) {pending : Pending}
    (toPush : (s.session i).pending = some pending) :
    Inv K ((s.set i { s.session i with pending := none }).set i.other
      { s.session i.other with
        pushes := (s.session i.other).pushes ++ pushed s.server pending }) := by
  have theirs := inv.session i.other
  rw [Side.other_other, toPush] at theirs
  have valid : ∀ push ∈ pushed s.server pending, isValidPath push.name = true := by
    intro push mem
    cases pending with
    | file n =>
      unfold pushed at mem
      dsimp only at mem
      split at mem
      · cases List.mem_singleton.mp mem
        exact inv.pending i n toPush
      · cases mem
    | delete n =>
      cases List.mem_singleton.mp mem
      exact inv.deleting i n toPush
  generalize after : (s.set i { s.session i with pending := none }).set i.other _ = s'
  have self : s'.session i = { s.session i with pending := none } := by
    rw [← after, State.session_set_of_ne i.other_ne.symm, State.session_set_self]
  have other : s'.session i.other = { s.session i.other with
      pushes := (s.session i.other).pushes ++ pushed s.server pending } := by
    rw [← after, State.session_set_self]
  have content : s'.content? = s.content? := by rw [← after]; rfl
  refine ⟨content.symm ▸ inv.files, fun p present => inv.names p (by rwa [← after] at present),
    fun j n later => ?_, fun j n later => ?_, fun j => ?_⟩
  · rcases i.eq_or_eq_other j with rfl | rfl
    · rw [self] at later
      cases later
    · rw [other] at later
      exact inv.pending _ n later
  · rcases i.eq_or_eq_other j with rfl | rfl
    · rw [self] at later
      cases later
    · rw [other] at later
      exact inv.deleting _ n later
  · rcases i.eq_or_eq_other j with rfl | rfl
    · rw [other, self, content]
      exact { inv.session j with ready := fun _ _ => rfl }
    · rw [Side.other_other, self, other, content]
      exact theirs.push pending inv.files valid

/-! ## Every run -/

theorem Inv.step {label : Label} (inv : Inv K s) (orderly : Orderly K s label)
    (stepped : step s label = some s') : Inv K s' := by
  cases label with
  | edit i name file =>
    simp only [Sessions.step] at stepped
    split at stepped <;> cases stepped
    rename_i ok
    refine inv.set rfl ((inv.session i).edited (fun q other => ?_) fun f present => ?_)
    · rw [FileTree.file?_put ok, if_neg other]
    · rw [FileTree.file?_put ok, if_pos rfl] at present
      cases present
      exact orderly.1
  | erase i name =>
    simp only [Sessions.step] at stepped
    split at stepped <;> cases stepped
    rename_i removed
    refine inv.set rfl ((inv.session i).edited (fun q other => ?_) fun f present => ?_)
    · rw [FileTree.file?_unlink removed, if_neg other]
    · rw [FileTree.file?_unlink removed, if_pos rfl] at present
      cases present
  | begin i name =>
    simp only [Sessions.step] at stepped
    split at stepped <;> cases stepped
    exact inv.set rfl ((inv.session i).begin ‹_› orderly.1)
  | send i =>
    simp only [Sessions.step] at stepped
    split at stepped
    · rename_i name here changed
      have accepted := orderly.1
      simp only [Accepted, changed] at accepted
      split at stepped <;> cases stepped
      swap
      · exact inv.set rfl ((inv.session i).gone changed ‹_›)
      rename_i file present
      have same := accepted file present
      have records : Records here file.content :=
        ⟨(sameContent_iff.mp same).1.symm, (sameContent_iff.mp same).2.symm⟩
      refine inv.set rfl ((inv.session i).send name (some here) ⟨rfl, records⟩ ?_
        (by rw [changed]; intro n h same; cases same) fun p => ?_)
      · rintro n f ⟨⟩
        exact (inv.session i).files name _ (by rw [SyncDir.content?, present, Option.map_some])
      · simp only [Session.target, changed]
    · rename_i name missing
      cases stepped
      refine inv.set rfl ((inv.session i).send name none rfl (fun n file asked => by cases asked)
        (by rw [missing]; intro n h same; cases same) fun p => ?_)
      simp only [Session.target, missing]
    · cases stepped
  | receive i =>
    simp only [Sessions.step] at stepped
    split at stepped <;> cases stepped
    exact inv.set rfl ((inv.session i).receive ‹_› ‹_›)
  | commit i =>
    simp only [Sessions.step] at stepped
    split at stepped <;> cases stepped
    rename_i request received
    simp only [Orderly, Accepted, InTurn, received] at orderly
    refine inv.commit received ?_ orderly.2
    rintro name file rfl
    exact orderly.1
  | answer i =>
    simp only [Sessions.step] at stepped
    split at stepped <;> cases stepped
    exact inv.set rfl ((inv.session i).answer ‹_›)
  | push i =>
    simp only [Sessions.step] at stepped
    split at stepped <;> cases stepped
    rw [State.session_set_of_ne i.other_ne]
    exact inv.push ‹_›
  | finish i =>
    simp only [Sessions.step] at stepped
    split at stepped <;> cases stepped
    exact inv.set rfl ((inv.session i).finish ‹_› ‹_›)
  | deliver i stamp =>
    simp only [Sessions.step] at stepped
    split at stepped <;> cases stepped
    rename_i push pushes idle queued
    refine inv.set rfl ((inv.session i).deliver idle queued ?_)
    rintro name file rfl
    simp only [Orderly, Accepted, queued] at orderly
    exact orderly.1

/-- Both sync_dirs and their saved states are in sync with the server, and
nothing is under way. -/
structure InSync (K : Bytes → Prop) (s : State) : Prop extends Quiescent s where
  files : ∀ p x, s.content? p = some x → K x
  names : ∀ p, s.server.tree.file? p ≠ none → isValidPath p = true
  local_ : ∀ i p, (s.session i).dir.content? p = s.content? p
  base : ∀ i p, Matches (s.session i).dir.base[p]? (s.content? p)

theorem InSync.inv (sync : InSync K s) : Inv K s where
  files := sync.files
  names := sync.names
  pending i name toPush := by
    rw [sync.pending] at toPush
    cases toPush
  deleting i name toPush := by
    rw [sync.pending] at toPush
    cases toPush
  session i :=
    { files := fun p x present => sync.files p x (sync.local_ i p ▸ present)
      uploads := fun name file => by rw [sync.call]; nofun
      pushed := fun name file mem => by
        rw [sync.pushes] at mem
        cases mem
      names := fun push mem => by
        rw [sync.pushes] at mem
        cases mem
      agree := by rw [sync.worker, sync.call]; rfl
      ready := fun request => by rw [sync.call]; nofun
      local_ := fun p => .inr (by
        rw [Session.target, sync.worker, sync.local_]
        exact sync.base i p)
      deleted := fun p => by rw [sync.pending]; nofun
      told := fun p _ _ => by
        rw [Told, sync.pushes, Session.settled, sync.worker]
        exact sync.base i p }

/-- When nothing is under way the sessions are in sync again. -/
theorem Inv.inSync (inv : Inv K s)
    (apart : ∀ c d, K c → K d → fnv1a c = fnv1a d → c.length = d.length → c = d)
    (quiet : Quiescent s) : InSync K s where
  toQuiescent := quiet
  files := inv.files
  names := inv.names
  local_ := inv.converged apart quiet
  base i p := by
    have told := (inv.session i).told p (by rw [quiet.pending]; nofun)
      (by rw [quiet.pending]; nofun)
    simpa only [Told, Session.settled, quiet.pushes, quiet.worker, List.filter_nil,
      List.getLast?_nil] using told

/-- **Two sessions converge.** When contents can be told apart by hash and size:
in every run from a state in sync in which nothing is overtaken or refused, once
everything is delivered and processed both sync_dirs and the server's copy have
the same (path → content) map. -/
theorem converged_of_quiescent {s₀ : State} {labels : List Label}
    (apart : ∀ c d, K c → K d → fnv1a c = fnv1a d → c.length = d.length → c = d)
    (start : InSync K s₀) (orderly : Meets step (Orderly K) s₀ labels)
    (ran : run step s₀ labels = some s) (quiet : Quiescent s) : Converged s :=
  (run_invariant (I := Inv K) (fun _ _ _ => Inv.step) start.inv orderly ran).converged apart quiet

/-! ## A file against a folder, and a change that arrives -/

section Examples

/-- Two sessions of a user without files. -/
def noFiles : State where
  server := ∅
  session _ := ⟨⟨∅, ∅⟩, [], .idle, .idle, none, []⟩

def oneByte (b : UInt8) : File := ⟨[b], 0, (by decide : 1 < 2 ^ 63)⟩

theorem inSync_noFiles (K : Bytes → Prop) : InSync K noFiles where
  events _ := rfl
  worker _ := rfl
  call _ := rfl
  pending _ := rfl
  pushes _ := rfl
  files p x present := by
    rw [State.content?, show noFiles.server.tree.file? p = none from FileTree.file?_empty p]
      at present
    cases present
  names p present := absurd (FileTree.file?_empty p) present
  local_ _ _ := rfl
  base i p := by
    rw [State.content?, show noFiles.server.tree.file? p = none from FileTree.file?_empty p,
      show (noFiles.session i).dir.base[p]? = none from ExtTreeMap.getElem?_empty]
    trivial

theorem inSync_of_run {labels : List Label}
    (apart : ∀ c d, K c → K d → fnv1a c = fnv1a d → c.length = d.length → c = d)
    (orderly : Meets step (Orderly K) noFiles labels) (ran : run step noFiles labels = some s)
    (quiet : Quiescent s) : InSync K s :=
  (run_invariant (I := Inv K) (fun _ _ _ => Inv.step) (inSync_noFiles K).inv orderly ran).inSync
    apart quiet

/-- `sync_local_change`, the commit, the push and the reply. -/
def syncChange (i : Side) (name : Bytes) : List Label :=
  [.begin i name, .send i, .receive i, .commit i, .answer i, .push i, .finish i]

/-- The file `x` is created in one session, and its push handled in the other. -/
def createX (b : UInt8) : List Label :=
  .edit .a (bytes "x") (oneByte b) :: syncChange .a (bytes "x") ++ [.deliver .b noon]

/-- One session creates the file `x`, the other `x/y`: both keep their own. -/
theorem diverged_file_over_folder :
    ¬∀ (K : Bytes → Prop) (s₀ s : State) (labels : List Label), InSync K s₀ →
      run step s₀ labels = some s → Quiescent s → Converged s := by
  intro claim
  have reached : (run step noFiles ([.edit .a (bytes "x") (oneByte 1),
      .edit .b (bytes "x/y") (oneByte 2)] ++ syncChange .a (bytes "x") ++
      [.begin .b (bytes "x/y"), .send .b, .receive .b, .commit .b, .answer .b, .finish .b,
        .deliver .b noon])).any (fun s => decide (Quiescent s ∧
      (s.session .b).dir.content? (bytes "x") = none ∧ s.content? (bytes "x") = some [1])) =
        true := by
    decide +kernel
  obtain ⟨s, ran, holds⟩ := (Option.any_eq_true _ _).mp reached
  obtain ⟨quiet, missing, stored⟩ := of_decide_eq_true holds
  have converged := claim (fun _ => True) noFiles s _ (inSync_noFiles _) ran quiet .b (bytes "x")
  rw [missing, stored] at converged
  cases converged

/-- A file created in one session reaches the other. -/
theorem converged_after_create :
    ∃ s, run step noFiles (createX 1) = some s ∧ s.content? (bytes "x") = some [1] ∧
      Converged s := by
  have reached : (run step noFiles (createX 1)).any (fun s => decide (Quiescent s ∧
      s.content? (bytes "x") = some [1])) = true := by decide +kernel
  obtain ⟨s, ran, holds⟩ := (Option.any_eq_true _ _).mp reached
  obtain ⟨quiet, stored⟩ := of_decide_eq_true holds
  refine ⟨s, ran, stored, converged_of_quiescent (K := fun c => c = [1]) ?_ (inSync_noFiles _) ?_
    ran quiet⟩
  · rintro c d rfl rfl - -
    rfl
  · decide +kernel

end Examples

end SisOp.Sessions
