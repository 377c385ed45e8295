import SisOp.Cluster.State
import SisOp.Lib.Run
import Mathlib.Logic.Function.Basic

/-!
# Who knows which servers are in the cluster

On one primary, the threads that change its list of members or bring it to the
backups: `handle_join`, the re-attachment of `handle_election`, `drop_link` after
a failed call, and the `broadcast_membership` each of them causes. A broadcast
copies the list, then the links, and then takes the links one by one, so several
of them overtake each other. Only one thread at a time attaches a link (the write
mutex); a call that fails may have reached the backup, or reach it later. That a
connection was shut down shows only in how the later calls on it end.
`notify_membership`, which brings the list to clients, is left out.

`τ` names the threads and `β` the backup processes.

Main result: `agreement_at_rest`, in every run with the orderings `Orderly` asks
for, once every thread is done each linked backup knows the primary's members.
-/

namespace SisOp.Membership

open Lib Std Function

/-- What a thread of the primary still has to do. `joins` tells `handle_join`
from `handle_election`. -/
inductive Task where
  | assign (host : Bytes) (port : UInt16)
  | welcome (member : ServerAddress) (joins : Bool)
  | reassure (candidate : ServerAddress)
  | reopen (candidate : ServerAddress)
  | attach (member : ServerAddress) (joins : Bool)
  | abandon (id : UInt32) (joins : Bool)
  | broadcast
  | snapshot (version : Nat) (list : List ServerAddress)
  | sending (version : Nat) (list : List ServerAddress) (todo : List Nat) (failed : List UInt32)
  | drop (id : UInt32)
  | remove (id : UInt32)

/-- Connections of the primary are numbered. `version` counts the changes of its
list and `told` is the version last received over a connection; both only
record. -/
structure State (τ β : Type) where
  cluster : Cluster Nat
  backup : β → Cluster Nat
  conn : Nat → Option (ServerAddress × β)
  nextConn : Nat
  /-- Connections on which a call failed. -/
  down : List Nat
  /-- What was sent in calls that failed, or after them, and may still arrive. -/
  lateAttach : List (Nat × List ServerAddress)
  lateUpdate : List (Nat × List ServerAddress)
  /-- The thread in `attach_replica`, and its connection. -/
  writer : Option (τ × Nat)
  thread : τ → List Task
  version : Nat
  told : Nat → Nat

/-- How a step that talks to another server ends: `stray` is a call that took the
reply to an earlier request for its own. -/
inductive Outcome (β : Type) where
  | done
  | reached (b : β)
  | lost (b : β)
  | stray
  | failed

inductive Label (τ β : Type) where
  | join (t : τ) (host : Bytes) (port : UInt16)
  | election (t : τ) (candidate : ServerAddress)
  | fault (t : τ) (id : UInt32)
  | step (t : τ) (outcome : Outcome β)
  | lateAttach (k : Nat)
  | lateUpdate (k : Nat)
  | closed (b : β)

variable {τ β : Type}

namespace State

def peer? (s : State τ β) (conn : Nat) : Option β := (s.conn conn).map Prod.snd

/-- `links_snapshot`. -/
def links (s : State τ β) : List Nat := s.cluster.links.toList.map Prod.snd

/-- A change of the primary's list. -/
def setMembers (s : State τ β) (cluster : Cluster Nat) : State τ β :=
  { s with cluster, version := s.version + 1 }

section Backups

variable [DecidableEq β]

def setBackup (s : State τ β) (b : β) (backup : Cluster Nat) : State τ β :=
  { s with backup := update s.backup b backup }

/-- The backup handles `ReplicaAttach`. -/
def attached (s : State τ β) (b : β) (conn : Nat) (list : List ServerAddress) : State τ β :=
  s.setBackup b ((s.backup b).replicaAttach conn s.cluster.self list)

/-- `handle_coordinator` at another server. -/
def announced (s : State τ β) (b : β) : State τ β :=
  if s.cluster.self.id < (s.backup b).self.id then s
  else s.setBackup b ((s.backup b).coordinator s.cluster.self)

/-- A new connection to the process at the member's address. -/
def connect (s : State τ β) (member : ServerAddress) (b : β) : State τ β :=
  { s with conn := update s.conn s.nextConn (some (member, b)), nextConn := s.nextConn + 1
           told := update s.told s.nextConn s.version }

/-- The first task of a thread: the state afterwards and the tasks in its place. -/
def stepTask [DecidableEq τ] (s : State τ β) (t : τ) (task : Task) (outcome : Outcome β) :
    Option (State τ β × List Task) :=
  match task with
  | .assign host port =>
    if s.cluster.role = .primary then
      let (cluster, id) := s.cluster.assignId host port
      let member : ServerAddress := ⟨id, host, port⟩
      some ({ s with cluster }, if id = 0 then [] else [.welcome member true])
    else some (s, [])
  | .welcome member joins =>
    some (s.setMembers (s.cluster.addMember member), [.attach member joins])
  | .reassure _ =>
    match outcome with
    | .reached b => some (s.announced b, [])
    | .failed => some (s, [])
    | _ => none
  | .reopen candidate =>
    some (s, if candidate.id ∈ s.cluster.links then [] else [.welcome candidate false])
  | .attach member joins =>
    match s.writer with
    | none =>
      match outcome with
      | .reached b =>
        some ({ (s.connect member b).attached b s.nextConn s.cluster.members with
          writer := some (t, s.nextConn) }, [.attach member joins])
      | .lost b =>
        some ({ s.connect member b with
          lateAttach := s.lateAttach ++ [(s.nextConn, s.cluster.members)] },
            [.abandon member.id joins])
      | .failed => some (s, [.abandon member.id joins])
      | _ => none
    | some (holder, conn) =>
      if holder = t then
        match outcome with
        | .done =>
          some ({ s with cluster := s.cluster.setLink member.id conn, writer := none },
            [.broadcast])
        | .failed => some ({ s with writer := none }, [.abandon member.id joins])
        | _ => none
      else none
  | .abandon id joins =>
    some (s.setMembers (s.cluster.removeMember id), if joins then [.broadcast] else [])
  | .broadcast => some (s, [.snapshot s.version s.cluster.members])
  | .snapshot version list => some (s, [.sending version list s.links []])
  | .sending _ _ [] failed => some (s, failed.map .drop)
  | .sending version list (conn :: todo) failed =>
    match s.conn conn with
    | none => none
    | some (member, b) =>
      match outcome with
      | .done =>
        if (s.backup b).primaryLink = some conn then
          some ({ s.setBackup b ((s.backup b).setMembers list) with
            told := update s.told conn version }, [.sending version list todo failed])
        else none
      | .stray =>
        if conn ∈ s.down then
          some ({ s with lateUpdate := s.lateUpdate ++ [(conn, list)] },
            [.sending version list todo failed])
        else none
      | .failed =>
        some ({ s with down := conn :: s.down, lateUpdate := s.lateUpdate ++ [(conn, list)] },
          [.sending version list todo (failed ++ [member.id])])
      | _ => none
  | .drop id =>
    match s.cluster.links[id]? with
    | none => some (s, [])
    | some _ => some ({ s with cluster := s.cluster.takeLink id }, [.remove id])
  | .remove id => some (s.setMembers (s.cluster.removeMember id), [.broadcast])

end Backups

end State

section Step

variable [DecidableEq τ] [DecidableEq β]

def State.put (s : State τ β) (t : τ) (tasks : List Task) : State τ β :=
  { s with thread := update s.thread t tasks }

def step (s : State τ β) : Label τ β → Option (State τ β)
  | .join t host port =>
    match s.thread t with
    | [] => some (s.put t [.assign host port])
    | _ => none
  | .election t candidate =>
    match s.thread t with
    | [] => some (s.put t [.reassure candidate, .reopen candidate])
    | _ => none
  | .fault t id =>
    match s.thread t with
    | [] => some ({ s with down := s.cluster.links[id]?.toList ++ s.down }.put t [.drop id])
    | _ => none
  | .step t outcome =>
    match s.thread t with
    | [] => none
    | task :: rest => (s.stepTask t task outcome).map fun (s, tasks) => s.put t (tasks ++ rest)
  | .lateAttach k =>
    match s.lateAttach[k]? with
    | none => none
    | some (conn, list) =>
      (s.peer? conn).map fun b =>
        { s.attached b conn list with lateAttach := s.lateAttach.eraseIdx k }
  | .lateUpdate k =>
    match s.lateUpdate[k]? with
    | none => none
    | some (conn, list) =>
      (s.peer? conn).map fun b =>
        let s := { s with lateUpdate := s.lateUpdate.eraseIdx k }
        if (s.backup b).primaryLink = some conn then
          s.setBackup b ((s.backup b).setMembers list)
        else s
  | .closed b => some (s.setBackup b { s.backup b with primaryLink := none })

end Step

/-! ## Orderings -/

/-- Whoever has this task will take a new list for the backups. -/
def Task.owes : Task → Bool
  | .welcome _ _ | .attach _ _ | .abandon _ _ | .broadcast | .remove _ => true
  | _ => false

/-- The server the task attaches, or failed to. -/
def Task.attempts : Task → Option UInt32
  | .attach member _ => some member.id
  | .abandon id _ => some id
  | _ => none

/-- The task ends in `drop_link` of this server. -/
def Task.drops (id : UInt32) : Task → Prop
  | .drop dropped => dropped = id
  | .sending _ _ _ failed => id ∈ failed
  | _ => False

namespace State

/-- A server leaves the list only without a link in `links_`. -/
def Removable (s : State τ β) (id : UInt32) : Prop :=
  id ∉ s.cluster.links ∧ id ≠ s.cluster.self.id

/-- No link to the process is in `links_` or about to be. -/
def Unlinked (s : State τ β) (b : β) : Prop :=
  (∀ (id : UInt32) conn, s.cluster.links[id]? = some conn → s.peer? conn ≠ some b) ∧
    ∀ t conn, s.writer = some (t, conn) → s.peer? conn ≠ some b

end State

/-- What a step may do: a server is put on the list under an id no other has; a
`ReplicaAttach` is answered by the server it is meant for, under the id and address
it knows for itself; a link goes live while its server is on the list; a server
leaves the list without a link in `links_`, and after a failed re-attachment only
while another thread still has its broadcast ahead; no list is received over a link
after a newer one. -/
def TaskOrderly (s : State τ β) (t : τ) : Task → Outcome β → Prop
  | .welcome member _, _ => ∀ m ∈ s.cluster.members, m.id = member.id → m = member
  | .attach member _, .reached b => (s.backup b).self = member
  | .attach member _, .done => member ∈ s.cluster.members
  | .abandon id joins, _ => s.Removable id ∧
      (joins = false → ∃ other, other ≠ t ∧ ∃ task ∈ s.thread other, task.owes = true)
  | .remove id, _ => s.Removable id
  | .sending version _ (conn :: _) _, .done => s.told conn ≤ version
  | _, _ => True

/-- And a `ReplicaAttach` whose call failed is not handled once a newer link to
the backup is live or being brought up to date. -/
def Orderly (s : State τ β) : Label τ β → Prop
  | .step t outcome =>
    match s.thread t with
    | [] => True
    | task :: _ => TaskOrderly s t task outcome
  | .lateAttach k =>
    ∀ conn list b, s.lateAttach[k]? = some (conn, list) → s.peer? conn = some b → s.Unlinked b
  | _ => True

/-! ## What every step keeps -/

section Safety

variable {s s' : State τ β}

/-- The backup's list has the primary's servers. -/
def Agrees (s : State τ β) (b : β) : Prop :=
  ∀ m, m ∈ (s.backup b).members ↔ m ∈ s.cluster.members

/-- Some thread will take a new list. -/
def Owed (s : State τ β) : Prop := ∃ t, ∃ task ∈ s.thread t, task.owes = true

/-- Some thread has the newest list and will take the links. -/
def Held (s : State τ β) : Prop :=
  ∃ t list, .snapshot s.version list ∈ s.thread t

/-- A link has the newest list, or will have it, or will be dropped. -/
def Covered (s : State τ β) (id : UInt32) (conn : Nat) : Prop :=
  (s.told conn = s.version ∧ ∀ b, s.peer? conn = some b → Agrees s b) ∨
    (∃ t list todo failed, .sending s.version list todo failed ∈ s.thread t ∧ conn ∈ todo) ∨
    ∃ t, ∃ task ∈ s.thread t, task.drops id

/-- The newest list is under way to every link that lacks it. -/
def Spreading (s : State τ β) : Prop :=
  Owed s ∨ Held s ∨ ∀ (id : UInt32) conn, s.cluster.links[id]? = some conn → Covered s id conn

/-- A list a thread has taken is the primary's, or there is a newer one; the links
it is for were live. -/
def Task.Fresh (s : State τ β) : Task → Prop
  | .snapshot version list => version ≤ s.version ∧ (version = s.version → list = s.cluster.members)
  | .sending version list todo _ =>
    (version ≤ s.version ∧ (version = s.version → list = s.cluster.members)) ∧
      ∀ conn ∈ todo, conn < s.nextConn ∧ ∀ t, s.writer ≠ some (t, conn)
  | _ => True

theorem Task.Fresh.congr {task : Task} (fresh : task.Fresh s) (version : s'.version = s.version)
    (members : s'.cluster.members = s.cluster.members)
    (live : ∀ conn, conn < s.nextConn → (∀ t, s.writer ≠ some (t, conn)) →
      conn < s'.nextConn ∧ ∀ t, s'.writer ≠ some (t, conn)) : task.Fresh s' := by
  cases task with
  | snapshot v list =>
    rw [Fresh, version, members]
    exact fresh
  | sending v list todo failed =>
    rw [Fresh, version, members]
    exact ⟨fresh.1, fun conn mem => live conn (fresh.2 conn mem).1 (fresh.2 conn mem).2⟩
  | _ => trivial

/-- A connection to a process that goes by the member's address and id. -/
structure Linked (s : State τ β) (member : ServerAddress) (conn : Nat) (b : β) : Prop where
  ends : s.conn conn = some (member, b)
  self : (s.backup b).self = member
  old : conn < s.nextConn

structure Inv (s : State τ β) : Prop where
  self : s.cluster.self ∈ s.cluster.members
  unique : ∀ m ∈ s.cluster.members, ∀ m' ∈ s.cluster.members, m.id = m'.id → m = m'
  links : ∀ (id : UInt32) conn, s.cluster.links[id]? = some conn →
    ∃ member b, Linked s member conn b ∧ member.id = id ∧ member ∈ s.cluster.members
  /-- A backup that follows another connection is being attached over it. -/
  follows : ∀ (id : UInt32) conn b other, s.cluster.links[id]? = some conn → s.peer? conn = some b →
    (s.backup b).primaryLink = some other →
      other = conn ∨ ∃ t, ∃ task ∈ s.thread t, task.attempts = some id
  writer : ∀ t conn, s.writer = some (t, conn) →
    ∃ member joins rest b, s.thread t = .attach member joins :: rest ∧ Linked s member conn b ∧
      conn ∉ s.down ∧ (∀ id : UInt32, s.cluster.links[id]? ≠ some conn) ∧
      ∀ other, (s.backup b).primaryLink = some other → other = conn
  old : ∀ conn ∈ s.down, conn < s.nextConn
  late : ∀ entry ∈ s.lateUpdate, entry.1 ∈ s.down
  down : ∀ (id : UInt32) conn, s.cluster.links[id]? = some conn → conn ∈ s.down →
    ∃ t, ∃ task ∈ s.thread t, task.drops id
  fresh : ∀ t, ∀ task ∈ s.thread t, task.Fresh s
  spreading : Spreading s

/-! ## A thread goes on -/

theorem owes_of_attempts {task : Task} {id : UInt32} (attempt : task.attempts = some id) :
    task.owes = true := by
  cases task <;> first | rfl | cases attempt

section Tasks

variable [DecidableEq τ] {t : τ} {before after rest : List Task}

theorem mem_after {task : Task} (mem : task ∈ after) :
    task ∈ (s.put t (after ++ rest)).thread t := by
  dsimp only [State.put]
  rw [update_self]
  exact List.mem_append_left _ mem

/-- Only the tasks that were replaced are gone. -/
theorem persists (before : List Task) (at_ : s.thread t = before ++ rest) (after : List Task)
    {t' : τ} {task : Task}
    (mem : task ∈ s.thread t') :
    task ∈ before ∨ task ∈ (s.put t (after ++ rest)).thread t' := by
  dsimp only [State.put]
  rcases eq_or_ne t' t with rfl | other
  · rw [update_self]
    rw [at_] at mem
    rcases List.mem_append.mp mem with first | later
    · exact .inl first
    · exact .inr (List.mem_append_right _ later)
  · rw [update_of_ne other]
    exact .inr mem

theorem fresh_put {task : Task} {tasks : List Task} : task.Fresh (s.put t tasks) ↔
    task.Fresh s := by
  cases task <;> exact Iff.rfl

/-- The tasks put in take over what the tasks replaced were for. -/
theorem spreading_put (before : List Task) (spreading : Spreading s)
    (at_ : s.thread t = before ++ rest)
    (owed : ∀ task ∈ before, task.owes = true → Spreading (s.put t (after ++ rest)))
    (held : ∀ list, .snapshot s.version list ∈ before → Spreading (s.put t (after ++ rest)))
    (sent : ∀ list todo failed, .sending s.version list todo failed ∈ before →
      ∀ (id : UInt32) conn, s.cluster.links[id]? = some conn → conn ∈ todo →
        Covered (s.put t (after ++ rest)) id conn)
    (drops : ∀ (id : UInt32) conn, s.cluster.links[id]? = some conn →
      (∃ task ∈ before, task.drops id) → Covered (s.put t (after ++ rest)) id conn) :
    Spreading (s.put t (after ++ rest)) := by
  rcases spreading with ⟨t', task, mem, owes⟩ | ⟨t', list, mem⟩ | covered
  · rcases persists before at_ after mem with first | stays
    · exact owed task first owes
    · exact .inl ⟨t', task, stays, owes⟩
  · rcases persists before at_ after mem with first | stays
    · exact held list first
    · exact .inr (.inl ⟨t', list, stays⟩)
  · refine .inr (.inr fun id conn linked => ?_)
    rcases covered id conn linked with told | ⟨t', list, todo, failed, mem, ahead⟩ |
        ⟨t', task, mem, drop⟩
    · exact .inl told
    · rcases persists before at_ after mem with first | stays
      · exact sent list todo failed first id conn linked ahead
      · exact .inr (.inl ⟨t', list, todo, failed, stays, ahead⟩)
    · rcases persists before at_ after mem with first | stays
      · exact drops id conn linked ⟨task, first, drop⟩
      · exact .inr (.inr ⟨t', task, stays, drop⟩)

theorem Inv.put (inv : Inv s) (before : List Task) (at_ : s.thread t = before ++ rest)
    (attempts : ∀ id, (∃ task ∈ before, task.attempts = some id) →
      (∃ task ∈ after, task.attempts = some id) ∨
        ∀ conn b other, s.cluster.links[id]? = some conn → s.peer? conn = some b →
          (s.backup b).primaryLink = some other → other = conn)
    (writer : ∀ conn, s.writer = some (t, conn) → after = before)
    (drops : ∀ (id : UInt32) conn, s.cluster.links[id]? = some conn →
      (∃ task ∈ before, task.drops id) → ∃ task ∈ after, task.drops id)
    (fresh : ∀ task ∈ after, task.Fresh s)
    (spreading : Spreading (s.put t (after ++ rest))) : Inv (s.put t (after ++ rest)) where
  self := inv.self
  unique := inv.unique
  links id conn live := by
    obtain ⟨member, b, linked, rfl, mem⟩ := inv.links id conn live
    exact ⟨member, b, ⟨linked.ends, linked.self, linked.old⟩, rfl, mem⟩
  follows id conn b other live peer followed := by
    rcases inv.follows id conn b other live peer followed with same | ⟨t', task, mem, attempt⟩
    · exact .inl same
    · rcases persists before at_ after mem with first | stays
      · rcases attempts id ⟨task, first, attempt⟩ with ⟨next, mem', attempt'⟩ | settled
        · exact .inr ⟨t, next, mem_after mem', attempt'⟩
        · exact .inl (settled conn b other live peer followed)
      · exact .inr ⟨t', task, stays, attempt⟩
  writer t' conn holds := by
    obtain ⟨member, joins, rest', b, top, linked, facts⟩ := inv.writer t' conn holds
    refine ⟨member, joins, rest', b, ?_, ⟨linked.ends, linked.self, linked.old⟩, facts⟩
    dsimp only [State.put]
    rcases eq_or_ne t' t with rfl | apart
    · rw [update_self, writer conn holds, ← at_]
      exact top
    · rw [update_of_ne apart]
      exact top
  old := inv.old
  late := inv.late
  down id conn live failed := by
    obtain ⟨t', task, mem, drop⟩ := inv.down id conn live failed
    rcases persists before at_ after mem with first | stays
    · obtain ⟨next, mem', drop'⟩ := drops id conn live ⟨task, first, drop⟩
      exact ⟨t, next, mem_after mem', drop'⟩
    · exact ⟨t', task, stays, drop⟩
  fresh t' task mem := by
    rw [fresh_put]
    dsimp only [State.put] at mem
    rcases eq_or_ne t' t with rfl | apart
    · rw [update_self] at mem
      rcases List.mem_append.mp mem with new | later
      · exact fresh task new
      · exact inv.fresh t' task (by rw [at_]; exact List.mem_append_right _ later)
    · rw [update_of_ne apart] at mem
      exact inv.fresh t' task mem
  spreading := spreading

/-- `spreading_put` for one task. -/
theorem spreading_next {task : Task} (inv : Inv s) (top : s.thread t = task :: rest)
    (owed : task.owes = true → Spreading (s.put t (after ++ rest)))
    (held : ∀ list, task = .snapshot s.version list → Spreading (s.put t (after ++ rest)))
    (sent : ∀ list todo failed, task = .sending s.version list todo failed →
      ∀ (id : UInt32) conn, s.cluster.links[id]? = some conn → conn ∈ todo →
        Covered (s.put t (after ++ rest)) id conn)
    (drops : ∀ (id : UInt32) conn, s.cluster.links[id]? = some conn → task.drops id →
      ∃ next ∈ after, next.drops id) : Spreading (s.put t (after ++ rest)) := by
  refine spreading_put [task] inv.spreading top (fun task' mem => ?_) (fun list mem => ?_)
    (fun list todo failed mem => ?_) fun id conn live ⟨task', mem, drop⟩ => ?_
  · rw [List.mem_singleton.mp mem]
    exact owed
  · exact held list (List.mem_singleton.mp mem).symm
  · exact sent list todo failed (List.mem_singleton.mp mem).symm
  · rw [List.mem_singleton.mp mem] at drop
    obtain ⟨next, mem', drop'⟩ := drops id conn live drop
    exact .inr (.inr ⟨t, next, mem_after mem', drop'⟩)

/-- `Inv.put` for one task. -/
theorem Inv.next {task : Task} (inv : Inv s) (top : s.thread t = task :: rest)
    (attempts : ∀ id, task.attempts = some id → (∃ next ∈ after, next.attempts = some id) ∨
      ∀ conn b other, s.cluster.links[id]? = some conn → s.peer? conn = some b →
        (s.backup b).primaryLink = some other → other = conn)
    (writer : ∀ conn, s.writer = some (t, conn) → after = [task])
    (drops : ∀ (id : UInt32) conn, s.cluster.links[id]? = some conn → task.drops id →
      ∃ next ∈ after, next.drops id)
    (fresh : ∀ next ∈ after, next.Fresh s)
    (spreading : Spreading (s.put t (after ++ rest))) : Inv (s.put t (after ++ rest)) := by
  refine inv.put [task] top (fun id ⟨task', mem, attempt⟩ => ?_) writer
    (fun id conn live ⟨task', mem, drop⟩ => ?_) fresh spreading
  · rw [List.mem_singleton.mp mem] at attempt
    exact attempts id attempt
  · rw [List.mem_singleton.mp mem] at drop
    exact drops id conn live drop

omit [DecidableEq τ] in
/-- Only a thread at its `attach` holds the write mutex. -/
theorem Inv.not_writer {task : Task} (inv : Inv s) (top : s.thread t = task :: rest)
    (other : ∀ member joins, task ≠ .attach member joins) {P : Prop} (conn : Nat)
    (holds : s.writer = some (t, conn)) : P := by
  obtain ⟨member, joins, rest', b, top', -⟩ := inv.writer t conn holds
  rw [top] at top'
  exact absurd (List.cons.inj top').1 (other member joins)

/-- A task that neither owes, holds nor drops anything gives way to others that
hold no list. -/
theorem Inv.pass {task : Task} (inv : Inv s) (top : s.thread t = task :: rest)
    (idle : task.owes = false) (quiet : ∀ version list, task ≠ .snapshot version list)
    (silent : ∀ version list todo failed, task ≠ .sending version list todo failed)
    (keeps : ∀ id, ¬task.drops id) (fresh : ∀ next ∈ after, next.Fresh s) :
    Inv (s.put t (after ++ rest)) := by
  have attempts : ∀ id, task.attempts ≠ some id := fun id attempt => by
    rw [owes_of_attempts attempt] at idle
    cases idle
  refine inv.next top (fun id attempt => absurd attempt (attempts id))
    (inv.not_writer top ?_)
    (fun id conn _ drop => absurd drop (keeps id)) fresh (spreading_next inv top ?_ ?_ ?_ ?_)
  · rintro member joins rfl
    cases idle
  · intro owes
    rw [idle] at owes
    cases owes
  · exact fun list eq => absurd eq (quiet _ list)
  · exact fun list todo failed eq => absurd eq (silent _ list todo failed)
  · exact fun id conn _ drop => absurd drop (keeps id)

/-- A task that owes a new list leaves it to the tasks that take its place. -/
theorem Inv.passOn {task : Task} (inv : Inv s) (top : s.thread t = task :: rest)
    (owes : task.owes = true)
    (attempts : ∀ id, task.attempts = some id → (∃ next ∈ after, next.attempts = some id) ∨
      ∀ conn b other, s.cluster.links[id]? = some conn → s.peer? conn = some b →
        (s.backup b).primaryLink = some other → other = conn)
    (writer : ∀ conn, s.writer = some (t, conn) → after = [task])
    (fresh : ∀ next ∈ after, next.Fresh s)
    (spreading : Spreading (s.put t (after ++ rest))) : Inv (s.put t (after ++ rest)) := by
  refine inv.next top attempts writer (fun id conn _ drop => ?_) fresh spreading
  cases task <;> first | exact drop.elim | cases owes

end Tasks

/-! ## The primary's list and links change -/

theorem owed_of_attempts {id : UInt32}
    (attempt : ∃ t, ∃ task ∈ s.thread t, task.attempts = some id) : Owed s := by
  obtain ⟨t, task, mem, attempt⟩ := attempt
  exact ⟨t, task, mem, owes_of_attempts attempt⟩

/-- Whoever changes the list owes a broadcast. -/
theorem Inv.setMembers (inv : Inv s) {cluster : Cluster Nat} (same : cluster.self = s.cluster.self)
    (links : cluster.links = s.cluster.links) (self : s.cluster.self ∈ cluster.members)
    (unique : ∀ m ∈ cluster.members, ∀ m' ∈ cluster.members, m.id = m'.id → m = m')
    (linked : ∀ (id : UInt32) conn member, s.cluster.links[id]? = some conn → member.id = id →
      member ∈ s.cluster.members → member ∈ cluster.members) (owed : Owed s) :
    Inv (s.setMembers cluster) where
  self := same ▸ self
  unique := unique
  links id conn live := by
    dsimp only [State.setMembers] at live
    rw [links] at live
    obtain ⟨member, b, facts, eq, mem⟩ := inv.links id conn live
    exact ⟨member, b, ⟨facts.ends, facts.self, facts.old⟩, eq, linked id conn member live eq mem⟩
  follows id conn b other live := by
    dsimp only [State.setMembers] at live
    rw [links] at live
    exact inv.follows id conn b other live
  writer t conn holds := by
    obtain ⟨member, joins, rest, b, top, facts, up, apart, follows⟩ := inv.writer t conn holds
    refine ⟨member, joins, rest, b, top, ⟨facts.ends, facts.self, facts.old⟩, up, ?_, follows⟩
    dsimp only [State.setMembers]
    rw [links]
    exact apart
  old := inv.old
  late := inv.late
  down id conn live := by
    dsimp only [State.setMembers] at live
    rw [links] at live
    exact inv.down id conn live
  fresh t task mem := by
    have fresh := inv.fresh t task mem
    cases task with
    | snapshot version list =>
      obtain ⟨old, -⟩ := fresh
      refine ⟨Nat.le_succ_of_le old, fun new => ?_⟩
      dsimp only [State.setMembers] at new
      omega
    | sending version list todo failed =>
      obtain ⟨⟨old, -⟩, live⟩ := fresh
      refine ⟨⟨Nat.le_succ_of_le old, fun new => ?_⟩, live⟩
      dsimp only [State.setMembers] at new
      omega
    | _ => trivial
  spreading := .inl owed

theorem mem_upsert_of_mem {list : List ServerAddress} {server m : ServerAddress}
    (free : ∀ m ∈ list, m.id = server.id → m = server) (mem : m ∈ list) :
    m ∈ upsert list server := by
  by_cases same : m.id = server.id
  · rw [free m mem same]
    exact mem_upsert_self
  · exact mem_upsert_of_ne mem same

/-- A server already on the list, the only one with its id. -/
theorem mem_upsert_iff {list : List ServerAddress} {server m : ServerAddress}
    (free : ∀ m ∈ list, m.id = server.id → m = server) (known : server ∈ list) :
    m ∈ upsert list server ↔ m ∈ list := by
  refine ⟨fun mem => ?_, mem_upsert_of_mem free⟩
  rcases mem_of_mem_upsert mem with rfl | before
  · exact known
  · exact before

theorem Inv.addMember (inv : Inv s) {member : ServerAddress}
    (free : ∀ m ∈ s.cluster.members, m.id = member.id → m = member) (owed : Owed s) :
    Inv (s.setMembers (s.cluster.addMember member)) := by
  refine inv.setMembers rfl rfl (mem_upsert_of_mem free inv.self) (fun m mem m' mem' same => ?_)
    (fun _ _ _ _ _ mem => mem_upsert_of_mem free mem) owed
  rcases mem_of_mem_upsert mem with rfl | old <;> rcases mem_of_mem_upsert mem' with rfl | old'
  · rfl
  · exact (free m' old' same.symm).symm
  · exact free m old same
  · exact inv.unique m old m' old' same

theorem Inv.removeMember (inv : Inv s) {id : UInt32} (removable : s.Removable id) (owed : Owed s) :
    Inv (s.setMembers (s.cluster.removeMember id)) := by
  refine inv.setMembers rfl rfl (Cluster.mem_removeMember.mpr ⟨inv.self, removable.2.symm⟩)
    (fun m mem m' mem' => ?_) (fun other conn member live eq mem => ?_) owed
  · exact inv.unique m (Cluster.mem_removeMember.mp mem).1 m' (Cluster.mem_removeMember.mp mem').1
  · refine Cluster.mem_removeMember.mpr ⟨mem, fun same => removable.1 ?_⟩
    rw [Map.mem_iff_ne_none, ← same, eq, live]
    exact Option.some_ne_none conn

/-- Fewer links, with the ids they had. -/
theorem Inv.takeLink (inv : Inv s) (id : UInt32) :
    Inv { s with cluster := s.cluster.takeLink id } := by
  have live : ∀ {other : UInt32} {conn}, (s.cluster.takeLink id).links[other]? = some conn →
      s.cluster.links[other]? = some conn := by
    intro other conn left
    rw [Cluster.takeLink, Map.getElem?_erase] at left
    split at left
    · cases left
    · exact left
  exact {
    self := inv.self
    unique := inv.unique
    links := fun other conn left => by
      obtain ⟨member, b, linked, eq, mem⟩ := inv.links other conn (live left)
      exact ⟨member, b, ⟨linked.ends, linked.self, linked.old⟩, eq, mem⟩
    follows := fun other conn b new left => inv.follows other conn b new (live left)
    writer := fun t conn holds => by
      obtain ⟨member, joins, rest, b, top, linked, up, apart, follows⟩ := inv.writer t conn holds
      exact ⟨member, joins, rest, b, top, ⟨linked.ends, linked.self, linked.old⟩, up,
        fun other left => apart other (live left), follows⟩
    old := inv.old
    late := inv.late
    down := fun other conn left => inv.down other conn (live left)
    fresh := fun t task mem =>
      (inv.fresh t task mem).congr rfl rfl fun _ old free => ⟨old, free⟩
    spreading := by
      rcases inv.spreading with owed | held | covered
      · exact .inl owed
      · exact .inr (.inl held)
      · exact .inr (.inr fun other conn left => covered other conn (live left)) }

/-- `attach_replica` ends with the link in place. -/
theorem Inv.setLink (inv : Inv s) {t : τ} {conn : Nat} {member : ServerAddress} {joins : Bool}
    {rest : List Task} (holds : s.writer = some (t, conn))
    (top : s.thread t = .attach member joins :: rest) (mem : member ∈ s.cluster.members) :
    Inv { s with cluster := s.cluster.setLink member.id conn, writer := none } := by
  obtain ⟨member', joins', rest', b, top', linked, up, apart, follows⟩ := inv.writer t conn holds
  rw [top] at top'
  cases top'
  have attempt : ∃ t, ∃ task ∈ s.thread t, task.attempts = some member.id :=
    ⟨t, .attach member joins, by rw [top]; exact List.mem_cons_self, rfl⟩
  exact {
    self := inv.self
    unique := inv.unique
    links := fun id other live => by
      rw [Cluster.setLink, Map.getElem?_insert] at live
      split at live
      · rename_i same
        cases live
        exact ⟨member, b, ⟨linked.ends, linked.self, linked.old⟩, same.symm, mem⟩
      · obtain ⟨member', b', linked', eq, mem'⟩ := inv.links id other live
        exact ⟨member', b', ⟨linked'.ends, linked'.self, linked'.old⟩, eq, mem'⟩
    follows := fun id other b' new live peer followed => by
      rw [Cluster.setLink, Map.getElem?_insert] at live
      split at live
      · rename_i same
        rw [same]
        exact .inr attempt
      · exact inv.follows id other b' new live peer followed
    writer := nofun
    old := inv.old
    late := inv.late
    down := fun id other live failed => by
      rw [Cluster.setLink, Map.getElem?_insert] at live
      split at live
      · cases live
        exact absurd failed up
      · exact inv.down id other live failed
    fresh := fun t task mem => (inv.fresh t task mem).congr rfl rfl fun _ old _ => ⟨old, nofun⟩
    spreading := .inl (owed_of_attempts attempt) }

theorem Inv.release (inv : Inv s) : Inv { s with writer := none } where
  self := inv.self
  unique := inv.unique
  links id conn live := by
    obtain ⟨member, b, linked, facts⟩ := inv.links id conn live
    exact ⟨member, b, ⟨linked.ends, linked.self, linked.old⟩, facts⟩
  follows := inv.follows
  writer := nofun
  old := inv.old
  late := inv.late
  down := inv.down
  fresh t task mem := (inv.fresh t task mem).congr rfl rfl fun _ old _ => ⟨old, nofun⟩
  spreading := inv.spreading

theorem Inv.setLowest (inv : Inv s) (lowestId : UInt32) :
    Inv { s with cluster := { s.cluster with lowestId } } where
  self := inv.self
  unique := inv.unique
  links id conn live := by
    obtain ⟨member, b, linked, facts⟩ := inv.links id conn live
    exact ⟨member, b, ⟨linked.ends, linked.self, linked.old⟩, facts⟩
  follows := inv.follows
  writer t conn holds := by
    obtain ⟨member, joins, rest, b, top, linked, facts⟩ := inv.writer t conn holds
    exact ⟨member, joins, rest, b, top, ⟨linked.ends, linked.self, linked.old⟩, facts⟩
  old := inv.old
  late := inv.late
  down := inv.down
  fresh t task mem := (inv.fresh t task mem).congr rfl rfl fun _ old free => ⟨old, free⟩
  spreading := inv.spreading

/-! ## A backup's list and link change -/

theorem peer?_of_ends {conn : Nat} {member : ServerAddress} {b : β}
    (ends : s.conn conn = some (member, b)) : s.peer? conn = some b := by
  rw [State.peer?, ends]
  rfl

section Backups

variable [DecidableEq β] {b : β} {conn : Nat} {member : ServerAddress}

theorem self_setBackup {backup : Cluster Nat} (same : backup.self = (s.backup b).self) (b' : β) :
    ((s.setBackup b backup).backup b').self = (s.backup b').self := by
  dsimp only [State.setBackup]
  rcases eq_or_ne b' b with rfl | other
  · rw [update_self, same]
  · rw [update_of_ne other]

theorem agrees_setBackup_of_ne {backup : Cluster Nat} {b' : β} (other : b' ≠ b)
    (agrees : Agrees s b') : Agrees (s.setBackup b backup) b' := by
  intro m
  dsimp only [State.setBackup]
  rw [update_of_ne other]
  exact agrees m

theorem agrees_setBackup_self {backup : Cluster Nat}
    (same : ∀ m, m ∈ backup.members ↔ m ∈ s.cluster.members) :
    Agrees (s.setBackup b backup) b := by
  intro m
  dsimp only [State.setBackup]
  rw [update_self]
  exact same m

/-- A backup changes its list, or loses its link. -/
theorem Inv.setBackup (inv : Inv s) {backup : Cluster Nat} {told : Nat → Nat}
    (self : backup.self = (s.backup b).self)
    (follows : ∀ other, backup.primaryLink = some other → (s.backup b).primaryLink = some other)
    (spreading : Spreading { s.setBackup b backup with told }) :
    Inv { s.setBackup b backup with told } := by
  have link : ∀ {b' other}, ((s.setBackup b backup).backup b').primaryLink = some other →
      (s.backup b').primaryLink = some other := by
    intro b' other followed
    dsimp only [State.setBackup] at followed
    rcases eq_or_ne b' b with rfl | apart
    · rw [update_self] at followed
      exact follows other followed
    · rw [update_of_ne apart] at followed
      exact followed
  exact {
    self := inv.self
    unique := inv.unique
    links := fun id conn live => by
      obtain ⟨member, b', linked, eq, mem⟩ := inv.links id conn live
      exact ⟨member, b', ⟨linked.ends, (self_setBackup self b').trans linked.self, linked.old⟩, eq,
        mem⟩
    follows := fun id conn b' other live peer followed =>
      inv.follows id conn b' other live peer (link followed)
    writer := fun t conn holds => by
      obtain ⟨member, joins, rest, b', top, linked, up, apart, follows⟩ := inv.writer t conn holds
      exact ⟨member, joins, rest, b', top,
        ⟨linked.ends, (self_setBackup self b').trans linked.self, linked.old⟩, up, apart,
        fun other followed => follows other (link followed)⟩
    old := inv.old
    late := inv.late
    down := inv.down
    fresh := fun t task mem =>
      (inv.fresh t task mem).congr rfl rfl fun _ old free => ⟨old, free⟩
    spreading := spreading }

/-- A link whose backup is told something else is looked at; the others keep
their cover. -/
theorem Inv.spreading_setBackup (inv : Inv s) {backup : Cluster Nat} {told : Nat → Nat}
    (others : ∀ (id : UInt32) conn, s.cluster.links[id]? = some conn → s.peer? conn ≠ some b →
      told conn = s.told conn)
    (here : ∀ (id : UInt32) conn, s.cluster.links[id]? = some conn → s.peer? conn = some b →
      s.told conn = s.version → Agrees s b → Owed s ∨ (∃ t, ∃ task ∈ s.thread t, task.drops id) ∨
        told conn = s.version ∧ ∀ m, m ∈ backup.members ↔ m ∈ s.cluster.members) :
    Spreading { s.setBackup b backup with told } := by
  by_cases owed : Owed s
  · exact .inl owed
  rcases inv.spreading with owing | held | covered
  · exact absurd owing owed
  · exact .inr (.inl held)
  refine .inr (.inr fun id conn live => ?_)
  rcases covered id conn live with ⟨newest, agrees⟩ | ahead
  · obtain ⟨member, b', linked, -⟩ := inv.links id conn live
    have peer := peer?_of_ends linked.ends
    rcases eq_or_ne b' b with rfl | apart
    · rcases here id conn live peer newest (agrees b' peer) with owing | drop | ⟨same, list⟩
      · exact absurd owing owed
      · exact .inr (.inr drop)
      · refine .inl ⟨same, fun b'' peer' => ?_⟩
        cases peer.symm.trans peer'
        exact agrees_setBackup_self list
    · have kept := others id conn live fun peer' => apart (Option.some.inj (peer.symm.trans peer'))
      refine .inl ⟨kept.trans newest, fun b'' peer' => ?_⟩
      cases peer.symm.trans peer'
      exact agrees_setBackup_of_ne apart (agrees b' peer)
  · exact .inr ahead

theorem Inv.closed (inv : Inv s) : Inv (s.setBackup b { s.backup b with primaryLink := none }) :=
  inv.setBackup rfl nofun (inv.spreading_setBackup (fun _ _ _ _ => rfl)
    fun _ _ _ _ newest agrees => .inr (.inr ⟨newest, agrees⟩))

/-- The announcement changes no list that has the primary. -/
theorem Inv.announced (inv : Inv s) : Inv (s.announced b) := by
  unfold State.announced
  split
  · exact inv
  · refine inv.setBackup rfl (fun _ followed => followed) (inv.spreading_setBackup
      (fun _ _ _ _ => rfl) fun id conn _ _ newest agrees => .inr (.inr ⟨newest, fun m => ?_⟩))
    refine (mem_upsert_iff (fun m mem same => ?_) ((agrees _).mpr inv.self)).trans (agrees m)
    exact inv.unique m ((agrees m).mp mem) _ inv.self same

/-- A list that arrives late comes over a link that is being dropped, or replaced. -/
theorem Inv.updated (inv : Inv s) {list : List ServerAddress} (failed : conn ∈ s.down)
    (followed : (s.backup b).primaryLink = some conn) :
    Inv (s.setBackup b ((s.backup b).setMembers list)) := by
  refine inv.setBackup rfl (fun _ same => same) (inv.spreading_setBackup (fun _ _ _ _ => rfl)
    fun id live linked peer _ _ => ?_)
  rcases inv.follows id live b conn linked peer followed with rfl | attempt
  · exact .inr (.inl (inv.down id conn linked failed))
  · exact .inl (owed_of_attempts attempt)

omit [DecidableEq β] in
/-- What the newest list makes of a linked backup's. -/
theorem Inv.agrees_of_newest (inv : Inv s) {id : UInt32} (live : s.cluster.links[id]? = some conn)
    (ends : s.conn conn = some (member, b)) (m : ServerAddress) :
    m ∈ ((s.backup b).setMembers s.cluster.members).members ↔ m ∈ s.cluster.members := by
  obtain ⟨member', b', linked, rfl, mem⟩ := inv.links id conn live
  cases ends.symm.trans linked.ends
  rw [Cluster.setMembers, linked.self]
  exact mem_upsert_iff (fun m known same => inv.unique m known _ mem same) mem

/-- A list a broadcast brings to a link, not older than the last. -/
theorem Inv.received (inv : Inv s) {t : τ} {version : Nat} {list : List ServerAddress}
    {todo : List Nat} {failed : List UInt32} {rest : List Task}
    (top : s.thread t = .sending version list (conn :: todo) failed :: rest)
    (ends : s.conn conn = some (member, b)) (followed : (s.backup b).primaryLink = some conn)
    (inOrder : s.told conn ≤ version) :
    Inv { s.setBackup b ((s.backup b).setMembers list) with
      told := update s.told conn version } := by
  have fresh := inv.fresh t (.sending version list (conn :: todo) failed) (by
    rw [top]
    exact List.mem_cons_self)
  refine inv.setBackup rfl (fun _ same => same) (inv.spreading_setBackup
    (fun id other live apart => ?_) fun id other live peer newest _ => ?_)
  · refine update_of_ne ?_ _ _
    rintro rfl
    exact apart (peer?_of_ends ends)
  · rcases inv.follows id other b conn live peer followed with rfl | attempt
    · have same : version = s.version := Nat.le_antisymm fresh.1.1 (newest ▸ inOrder)
      rw [update_self, fresh.1.2 same]
      exact .inr (.inr ⟨same, inv.agrees_of_newest live ends⟩)
    · exact .inl (owed_of_attempts attempt)

omit [DecidableEq β] in
/-- The primary connects to the process that goes by the member's address and id. -/
theorem Inv.connect (inv : Inv s) (member : ServerAddress) (b : β) : Inv (s.connect member b) := by
  have ends : ∀ {c}, c < s.nextConn → (s.connect member b).conn c = s.conn c := by
    intro c old
    exact update_of_ne (Nat.ne_of_lt old) _ _
  have linked : ∀ {c m b'}, Linked s m c b' → Linked (s.connect member b) m c b' :=
    fun facts => ⟨(ends facts.old).trans facts.ends, facts.self, Nat.lt_succ_of_lt facts.old⟩
  have peer : ∀ {c}, c < s.nextConn → (s.connect member b).peer? c = s.peer? c := by
    intro c old
    rw [State.peer?, ends old]
    rfl
  exact {
    self := inv.self
    unique := inv.unique
    links := fun id c live => by
      obtain ⟨m, b', facts, eq, mem⟩ := inv.links id c live
      exact ⟨m, b', linked facts, eq, mem⟩
    follows := fun id c b' other live at_ followed => by
      obtain ⟨m, b'', facts, -⟩ := inv.links id c live
      exact inv.follows id c b' other live ((peer facts.old).symm.trans at_) followed
    writer := fun t c holds => by
      obtain ⟨m, joins, rest, b', top, facts, more⟩ := inv.writer t c holds
      exact ⟨m, joins, rest, b', top, linked facts, more⟩
    old := fun c failed => Nat.lt_succ_of_lt (inv.old c failed)
    late := inv.late
    down := inv.down
    fresh := fun t task mem => (inv.fresh t task mem).congr rfl rfl fun _ old free =>
      ⟨Nat.lt_succ_of_lt old, free⟩
    spreading := by
      rcases inv.spreading with owed | held | covered
      · exact .inl owed
      · exact .inr (.inl held)
      refine .inr (.inr fun id c live => ?_)
      rcases covered id c live with ⟨told, agrees⟩ | ahead
      · obtain ⟨m, b', facts, -⟩ := inv.links id c live
        refine .inl ⟨(update_of_ne (Nat.ne_of_lt facts.old) _ _).trans told, fun b'' at_ => ?_⟩
        exact agrees b'' ((peer facts.old).symm.trans at_)
      · exact .inr ahead }

/-- The backup takes the connection as its primary link, and the thread brings it
up to date. -/
theorem Inv.attached (inv : Inv s) {t : τ} (list : List ServerAddress) {joins : Bool}
    {rest : List Task} (top : s.thread t = .attach member joins :: rest)
    (linked : Linked s member conn b) (up : conn ∉ s.down)
    (apart : ∀ id : UInt32, s.cluster.links[id]? ≠ some conn)
    (unseen : ∀ t version list todo failed,
      .sending version list todo failed ∈ s.thread t → conn ∉ todo) :
    Inv { s.attached b conn list with writer := some (t, conn) } := by
  have attempt : ∃ t, ∃ task ∈ s.thread t, task.attempts = some member.id :=
    ⟨t, .attach member joins, by rw [top]; exact List.mem_cons_self, rfl⟩
  have self : ∀ b', ((s.attached b conn list).backup b').self = (s.backup b').self :=
    self_setBackup rfl
  exact {
    self := inv.self
    unique := inv.unique
    links := fun id c live => by
      obtain ⟨m, b', facts, eq, mem⟩ := inv.links id c live
      exact ⟨m, b', ⟨facts.ends, (self b').trans facts.self, facts.old⟩, eq, mem⟩
    follows := fun id c b' other live peer followed => by
      rcases eq_or_ne b' b with rfl | elsewhere
      · obtain ⟨m, b'', facts, rfl, -⟩ := inv.links id c live
        cases peer.symm.trans (peer?_of_ends facts.ends)
        rw [← facts.self, linked.self]
        exact .inr attempt
      · refine inv.follows id c b' other live peer ?_
        dsimp only [State.attached, State.setBackup] at followed
        rw [update_of_ne elsewhere] at followed
        exact followed
    writer := fun t' c holds => by
      cases holds
      refine ⟨member, joins, rest, b, top, ⟨linked.ends, (self b).trans linked.self, linked.old⟩,
        up, apart, fun other followed => ?_⟩
      dsimp only [State.attached, State.setBackup] at followed
      rw [update_self] at followed
      exact (Option.some.inj followed).symm
    old := inv.old
    late := inv.late
    down := inv.down
    fresh := fun t' task mem => by
      have fresh := inv.fresh t' task mem
      cases task with
      | sending version list todo failed =>
        refine ⟨fresh.1, fun c ahead => ⟨(fresh.2 c ahead).1, fun t'' holds => ?_⟩⟩
        cases holds
        exact unseen t' version list todo failed mem ahead
      | _ => exact fresh
    spreading := .inl (owed_of_attempts attempt) }

/-- A late `ReplicaAttach` reaches a backup the primary has no link to. -/
theorem Inv.attachedLate (inv : Inv s) (conn : Nat) (list : List ServerAddress)
    (unlinked : s.Unlinked b) :
    Inv (s.attached b conn list) := by
  have self : ∀ b', ((s.attached b conn list).backup b').self = (s.backup b').self :=
    self_setBackup rfl
  have link : ∀ {b' other}, b' ≠ b → ((s.attached b conn list).backup b').primaryLink = some other →
      (s.backup b').primaryLink = some other := by
    intro b' other elsewhere followed
    dsimp only [State.attached, State.setBackup] at followed
    rw [update_of_ne elsewhere] at followed
    exact followed
  exact {
    self := inv.self
    unique := inv.unique
    links := fun id c live => by
      obtain ⟨m, b', facts, eq, mem⟩ := inv.links id c live
      exact ⟨m, b', ⟨facts.ends, (self b').trans facts.self, facts.old⟩, eq, mem⟩
    follows := fun id c b' other live peer followed => by
      refine inv.follows id c b' other live peer (link ?_ followed)
      rintro rfl
      exact unlinked.1 id c live peer
    writer := fun t c holds => by
      obtain ⟨m, joins, rest, b', top, facts, up, apart, follows⟩ := inv.writer t c holds
      refine ⟨m, joins, rest, b', top, ⟨facts.ends, (self b').trans facts.self, facts.old⟩, up,
        apart, fun other followed => follows other (link ?_ followed)⟩
      rintro rfl
      exact unlinked.2 t c holds (peer?_of_ends facts.ends)
    old := inv.old
    late := inv.late
    down := inv.down
    fresh := fun t task mem =>
      (inv.fresh t task mem).congr rfl rfl fun _ old free => ⟨old, free⟩
    spreading := by
      refine inv.spreading_setBackup (fun _ _ _ _ => rfl) fun id c live peer => ?_
      exact absurd peer (unlinked.1 id c live) }

omit [DecidableEq β] in
/-- Calls fail, and what they sent is on its way. -/
theorem Inv.setLate (inv : Inv s) (down : List Nat) {lateAttach lateUpdate}
    (old : ∀ conn ∈ down, conn < s.nextConn)
    (writer : ∀ t conn, s.writer = some (t, conn) → conn ∉ down)
    (late : ∀ entry ∈ lateUpdate, entry.1 ∈ down)
    (drops : ∀ (id : UInt32) conn, s.cluster.links[id]? = some conn → conn ∈ down →
      conn ∈ s.down ∨ ∃ t, ∃ task ∈ s.thread t, task.drops id) :
    Inv { s with down, lateAttach, lateUpdate } where
  self := inv.self
  unique := inv.unique
  links id conn live := by
    obtain ⟨member, b, linked, facts⟩ := inv.links id conn live
    exact ⟨member, b, ⟨linked.ends, linked.self, linked.old⟩, facts⟩
  follows := inv.follows
  writer t conn holds := by
    obtain ⟨member, joins, rest, b, top, linked, -, facts⟩ := inv.writer t conn holds
    exact ⟨member, joins, rest, b, top, ⟨linked.ends, linked.self, linked.old⟩,
      writer t conn holds, facts⟩
  old := old
  late := late
  down id conn live failed := by
    rcases drops id conn live failed with before | drop
    · exact inv.down id conn live before
    · exact drop
  fresh t task mem := (inv.fresh t task mem).congr rfl rfl fun _ old free => ⟨old, free⟩
  spreading := inv.spreading

end Backups

/-! ## Every step -/

section Steps

variable [DecidableEq τ] {t : τ} {rest : List Task}

omit [DecidableEq τ] in
theorem owed_of_top {task : Task} (top : s.thread t = task :: rest) (owes : task.owes = true) :
    Owed s :=
  ⟨t, task, by rw [top]; exact List.mem_cons_self, owes⟩

/-- A thread that takes over a debt. -/
theorem spreading_of_owes {next : Task} {tasks : List Task} (mem : next ∈ tasks)
    (owes : next.owes = true) : Spreading (s.put t (tasks ++ rest)) :=
  .inl ⟨t, next, mem_after mem, owes⟩

theorem Inv.abandon (inv : Inv s) {id : UInt32} {joins : Bool}
    (top : s.thread t = .abandon id joins :: rest)
    (orderly : TaskOrderly s t (.abandon id joins) (.done : Outcome β)) :
    Inv ((s.setMembers (s.cluster.removeMember id)).put t
      ((if joins then [.broadcast] else []) ++ rest)) := by
  have removed := inv.removeMember orderly.1 (owed_of_top top rfl)
  refine removed.passOn top rfl (fun id' attempt => .inr fun conn b other live => ?_)
    (inv.not_writer top fun _ _ => nofun) (fun next mem => ?_) ?_
  · cases attempt
    exact absurd (Map.mem_iff_ne_none.mpr (Option.ne_none_iff_exists'.mpr ⟨conn, live⟩)) orderly.1.1
  · split at mem
    · rw [List.mem_singleton.mp mem]
      trivial
    · cases mem
  · cases joins with
    | true => exact spreading_of_owes (List.mem_singleton_self _) rfl
    | false =>
      obtain ⟨t', apart, task, mem, owes⟩ := orderly.2 rfl
      refine .inl ⟨t', task, ?_, owes⟩
      dsimp only [State.put]
      rw [update_of_ne apart]
      exact mem

/-- The link went with another thread. -/
theorem Inv.dropAgain (inv : Inv s) {id : UInt32} (top : s.thread t = .drop id :: rest)
    (absent : s.cluster.links[id]? = none) : Inv (s.put t ([] ++ rest)) := by
  have gone : ∀ (other : UInt32) conn, s.cluster.links[other]? = some conn →
      (Task.drop id).drops other → ∃ next ∈ ([] : List Task), next.drops other := by
    rintro other conn live rfl
    cases absent.symm.trans live
  exact inv.next top nofun (inv.not_writer top fun _ _ => nofun) gone nofun
    (spreading_next inv top nofun nofun nofun gone)

theorem Inv.drop (inv : Inv s) {id : UInt32} (top : s.thread t = .drop id :: rest) :
    Inv (State.put { s with cluster := s.cluster.takeLink id } t ([.remove id] ++ rest)) := by
  refine (inv.takeLink id).next top nofun (inv.not_writer top fun _ _ => nofun)
    (fun other conn live drop => ?_) (fun next mem => ?_)
    (spreading_of_owes (List.mem_singleton_self _) rfl)
  · cases drop
    rw [Cluster.takeLink, Map.getElem?_erase, if_pos rfl] at live
    cases live
  · rw [List.mem_singleton.mp mem]
    trivial

theorem Inv.remove (inv : Inv s) {id : UInt32} (top : s.thread t = .remove id :: rest)
    (orderly : TaskOrderly s t (.remove id) (.done : Outcome β)) :
    Inv ((s.setMembers (s.cluster.removeMember id)).put t ([.broadcast] ++ rest)) := by
  refine (inv.removeMember orderly (owed_of_top top rfl)).passOn top rfl nofun
    (inv.not_writer top fun _ _ => nofun) (fun next mem => ?_)
    (spreading_of_owes (List.mem_singleton_self _) rfl)
  rw [List.mem_singleton.mp mem]
  trivial

theorem Inv.snapshot (inv : Inv s) {version : Nat} {list : List ServerAddress}
    (top : s.thread t = .snapshot version list :: rest) :
    Inv (s.put t ([.sending version list s.links []] ++ rest)) := by
  have fresh := inv.fresh t (.snapshot version list) (by rw [top]; exact List.mem_cons_self)
  refine inv.next top nofun (inv.not_writer top fun _ _ => nofun)
    (fun _ _ _ drop => drop.elim) (fun next mem => ?_)
    (spreading_next inv top nofun (fun list' eq => ?_) nofun fun _ _ _ drop => drop.elim)
  · rw [List.mem_singleton.mp mem]
    refine ⟨fresh, fun conn listed => ?_⟩
    obtain ⟨⟨id, conn'⟩, live, rfl⟩ := List.mem_map.mp listed
    obtain ⟨member, b, linked, -⟩ := inv.links id conn' (Map.mem_toList_iff.mp live)
    refine ⟨linked.old, fun t' holds => ?_⟩
    obtain ⟨_, _, _, _, _, _, _, apart, -⟩ := inv.writer t' conn' holds
    exact apart id (Map.mem_toList_iff.mp live)
  · cases eq
    refine .inr (.inr fun id conn live => .inr (.inl ?_))
    refine ⟨t, list, s.links, [], mem_after (List.mem_singleton_self _), ?_⟩
    exact List.mem_map.mpr ⟨(id, conn), Map.mem_toList_iff.mpr live, rfl⟩

/-- The broadcast goes on to the next link: that one has the list, or is dropped. -/
theorem Inv.advance (inv : Inv s) {version : Nat} {list : List ServerAddress} {conn : Nat}
    {todo : List Nat} {failed : List UInt32} (more : List UInt32)
    (top : s.thread t = .sending version list (conn :: todo) failed :: rest)
    (kept : ∀ id ∈ failed, id ∈ more)
    (covered : version = s.version → ∀ id : UInt32, s.cluster.links[id]? = some conn →
      Spreading (s.put t ([.sending version list todo more] ++ rest)) ∨
        Covered (s.put t ([.sending version list todo more] ++ rest)) id conn) :
    Inv (s.put t ([.sending version list todo more] ++ rest)) := by
  have fresh := inv.fresh t (.sending version list (conn :: todo) failed) (by
    rw [top]
    exact List.mem_cons_self)
  have onTop : .sending version list todo more ∈
      (s.put t ([.sending version list todo more] ++ rest)).thread t :=
    mem_after (List.mem_singleton_self _)
  refine inv.next top nofun (inv.not_writer top fun _ _ => nofun)
    (fun id _ _ drop => ⟨_, List.mem_singleton_self _, kept id drop⟩) (fun next mem => ?_) ?_
  · rw [List.mem_singleton.mp mem]
    exact ⟨fresh.1, fun other later => fresh.2 other (List.mem_cons_of_mem _ later)⟩
  · by_cases settled : Spreading (s.put t ([.sending version list todo more] ++ rest))
    · exact settled
    refine spreading_next inv top nofun nofun (fun list' todo' failed' eq id other live ahead => ?_)
      fun id _ _ drop => ⟨_, List.mem_singleton_self _, kept id drop⟩
    cases eq
    rcases List.mem_cons.mp ahead with rfl | later
    · exact (covered rfl id live).resolve_left settled
    · exact .inr (.inl ⟨t, list, todo, more, onTop, later⟩)

variable [DecidableEq β]

theorem Inv.assign (inv : Inv s) {host : Bytes} {port : UInt16} {tasks : List Task}
    {outcome : Outcome β} (top : s.thread t = .assign host port :: rest)
    (stepped : s.stepTask t (.assign host port) outcome = some (s', tasks)) :
    Inv (s'.put t (tasks ++ rest)) := by
  simp only [State.stepTask] at stepped
  split at stepped
  · cases stepped
    have lowered : Inv { s with cluster := (s.cluster.assignId host port).1 } := by
      unfold Cluster.assignId
      dsimp only
      split
      · exact inv.setLowest _
      · exact inv
    refine lowered.pass top rfl nofun nofun (fun _ => id) fun next mem => ?_
    split at mem
    · cases mem
    · rw [List.mem_singleton.mp mem]
      trivial
  · cases stepped
    exact inv.pass top rfl nofun nofun (fun _ => id) nofun

theorem Inv.beginAttach (inv : Inv s) {member : ServerAddress} {joins : Bool} {tasks : List Task}
    {outcome : Outcome β} (top : s.thread t = .attach member joins :: rest)
    (free : s.writer = none) (orderly : TaskOrderly s t (.attach member joins) outcome)
    (stepped : s.stepTask t (.attach member joins) outcome = some (s', tasks)) :
    Inv (s'.put t (tasks ++ rest)) := by
  have idle : ∀ {after : List Task} conn, s.writer = some (t, conn) →
      after = [.attach member joins] := by
    intro after conn holds
    rw [free] at holds
    cases holds
  simp only [State.stepTask, free] at stepped
  split at stepped
  · rename_i b
    cases stepped
    have unlinked : ∀ id : UInt32, s.cluster.links[id]? ≠ some s.nextConn := by
      intro id live
      obtain ⟨_, _, linked, -⟩ := inv.links id _ live
      exact absurd linked.old (Nat.lt_irrefl _)
    have attached := (inv.connect member b).attached
      s.cluster.members top ⟨update_self .., orderly, Nat.lt_succ_self _⟩
      (fun failed => absurd (inv.old _ failed) (Nat.lt_irrefl _)) unlinked
      (fun t' _ _ _ _ mem ahead =>
        absurd ((inv.fresh t' _ mem).2 _ ahead).1 (Nat.lt_irrefl _))
    refine attached.passOn top rfl (fun id attempt => .inl ⟨_, List.mem_singleton_self _, attempt⟩)
      (fun _ _ => rfl) (fun next mem => ?_) (spreading_of_owes (List.mem_singleton_self _) rfl)
    rw [List.mem_singleton.mp mem]
    trivial
  · rename_i b
    cases stepped
    have sent : Inv { s.connect member b with
        lateAttach := s.lateAttach ++ [(s.nextConn, s.cluster.members)] } :=
      (inv.connect member b).setLate s.down
        (fun conn failed => Nat.lt_succ_of_lt (inv.old conn failed)) (fun t conn holds => by
          dsimp only [State.connect] at holds
          rw [free] at holds
          cases holds) inv.late fun _ _ _ failed => .inl failed
    refine sent.passOn top rfl (fun id attempt => .inl ⟨_, List.mem_singleton_self _, attempt⟩)
      idle (fun next mem => ?_) (spreading_of_owes (List.mem_singleton_self _) rfl)
    rw [List.mem_singleton.mp mem]
    trivial
  · cases stepped
    refine inv.passOn top rfl (fun id attempt => .inl ⟨_, List.mem_singleton_self _, attempt⟩) idle
      (fun next mem => ?_) (spreading_of_owes (List.mem_singleton_self _) rfl)
    rw [List.mem_singleton.mp mem]
    trivial
  · cases stepped

theorem Inv.endAttach (inv : Inv s) {member : ServerAddress} {joins : Bool} {conn : Nat}
    {tasks : List Task} {outcome : Outcome β} (top : s.thread t = .attach member joins :: rest)
    (holds : s.writer = some (t, conn))
    (orderly : TaskOrderly s t (.attach member joins) outcome)
    (stepped : s.stepTask t (.attach member joins) outcome = some (s', tasks)) :
    Inv (s'.put t (tasks ++ rest)) := by
  simp only [State.stepTask, holds, if_pos] at stepped
  split at stepped
  · cases stepped
    obtain ⟨member', joins', rest', b, top', linked, -, -, follows⟩ := inv.writer t conn holds
    rw [top] at top'
    cases top'
    have live := inv.setLink holds top orderly
    refine live.passOn top rfl (fun id attempt => .inr fun conn' b' other live' peer followed => ?_)
      nofun (fun next mem => ?_) (spreading_of_owes (List.mem_singleton_self _) rfl)
    · cases attempt
      dsimp only at live'
      rw [Cluster.setLink, Map.getElem?_insert, if_pos rfl] at live'
      cases live'
      cases (peer?_of_ends linked.ends).symm.trans peer
      exact follows other followed
    · rw [List.mem_singleton.mp mem]
      trivial
  · cases stepped
    refine inv.release.passOn top rfl
      (fun id attempt => .inl ⟨_, List.mem_singleton_self _, attempt⟩) nofun (fun next mem => ?_)
      (spreading_of_owes (List.mem_singleton_self _) rfl)
    rw [List.mem_singleton.mp mem]
    trivial
  · cases stepped

theorem Inv.send (inv : Inv s) {version : Nat} {list : List ServerAddress} {conn : Nat}
    {todo : List Nat} {failed : List UInt32} {tasks : List Task} {outcome : Outcome β}
    (top : s.thread t = .sending version list (conn :: todo) failed :: rest)
    (orderly : TaskOrderly s t (.sending version list (conn :: todo) failed) outcome)
    (stepped : s.stepTask t (.sending version list (conn :: todo) failed) outcome =
      some (s', tasks)) : Inv (s'.put t (tasks ++ rest)) := by
  simp only [State.stepTask] at stepped
  split at stepped
  · cases stepped
  rename_i member b ends
  split at stepped
  · split at stepped
    · rename_i followed
      cases stepped
      refine (inv.received top ends followed orderly).advance failed top (fun _ => id)
        fun newest id live => .inr (.inl ⟨(update_self ..).trans newest, fun b' peer => ?_⟩)
      cases (peer?_of_ends ends).symm.trans peer
      have fresh := inv.fresh t (.sending version list (conn :: todo) failed) (by
        rw [top]
        exact List.mem_cons_self)
      rw [fresh.1.2 newest]
      exact agrees_setBackup_self (inv.agrees_of_newest live ends)
    · cases stepped
  · split at stepped
    · rename_i down
      cases stepped
      have strayed : Inv { s with lateUpdate := s.lateUpdate ++ [(conn, list)] } := by
        refine inv.setLate s.down inv.old (fun t conn holds => ?_) (fun entry mem => ?_)
          fun _ _ _ failed => .inl failed
        · obtain ⟨_, _, _, _, _, _, up, -⟩ := inv.writer t conn holds
          exact up
        · rcases List.mem_append.mp mem with before | new
          · exact inv.late entry before
          · rw [List.mem_singleton.mp new]
            exact down
      refine strayed.advance failed top (fun _ => id) fun newest id live => .inr (.inr (.inr ?_))
      obtain ⟨t', task, mem, drop⟩ := inv.down id conn live down
      rcases persists [.sending version list (conn :: todo) failed] top
        [.sending version list todo failed] mem with first | stays
      · rw [List.mem_singleton.mp first] at drop
        exact ⟨t, _, mem_after (List.mem_singleton_self _), drop⟩
      · exact ⟨t', task, stays, drop⟩
    · cases stepped
  · cases stepped
    have advanced := inv.advance (failed ++ [member.id]) top
      (fun _ => List.mem_append_left _) fun _ id live => .inr (.inr (.inr
        ⟨t, _, mem_after (List.mem_singleton_self _), by
          obtain ⟨member', b', linked, rfl, -⟩ := inv.links id conn live
          cases ends.symm.trans linked.ends
          exact List.mem_append_right _ (List.mem_singleton_self _)⟩))
    have fresh := (inv.fresh t (.sending version list (conn :: todo) failed) (by
      rw [top]
      exact List.mem_cons_self)).2 conn List.mem_cons_self
    exact advanced.setLate (conn :: s.down)
      (fun other failed => by
        rcases List.mem_cons.mp failed with rfl | before
        · exact fresh.1
        · exact inv.old other before)
      (fun t' other holds failed => by
        rcases List.mem_cons.mp failed with rfl | before
        · exact fresh.2 t' holds
        · obtain ⟨_, _, _, _, _, _, up, -⟩ := inv.writer t' other holds
          exact up before)
      (fun entry mem => by
        rcases List.mem_append.mp mem with before | new
        · exact List.mem_cons_of_mem _ (inv.late entry before)
        · rw [List.mem_singleton.mp new]
          exact List.mem_cons_self)
      fun id other live failed => by
        rcases List.mem_cons.mp failed with rfl | before
        · refine .inr ⟨t, _, mem_after (List.mem_singleton_self _), ?_⟩
          obtain ⟨member', b', linked, rfl, -⟩ := inv.links id other live
          cases ends.symm.trans linked.ends
          exact List.mem_append_right _ (List.mem_singleton_self _)
        · exact .inl before
  · cases stepped

theorem Inv.stepTask (inv : Inv s) {task : Task} {tasks : List Task} {outcome : Outcome β}
    (top : s.thread t = task :: rest) (orderly : TaskOrderly s t task outcome)
    (stepped : s.stepTask t task outcome = some (s', tasks)) : Inv (s'.put t (tasks ++ rest)) := by
  cases task with
  | assign host port => exact inv.assign top stepped
  | welcome member joins =>
    cases stepped
    refine (inv.addMember orderly (owed_of_top top rfl)).passOn top rfl nofun
      (inv.not_writer top fun _ _ => nofun) (fun next mem => ?_)
      (spreading_of_owes (List.mem_singleton_self _) rfl)
    rw [List.mem_singleton.mp mem]
    trivial
  | reassure candidate =>
    simp only [State.stepTask] at stepped
    split at stepped
    · rename_i b
      cases stepped
      have still : (s.announced b).thread t = .reassure candidate :: rest := by
        unfold State.announced
        split <;> exact top
      exact inv.announced.pass still rfl nofun nofun (fun _ => id) nofun
    · cases stepped
      exact inv.pass top rfl nofun nofun (fun _ => id) nofun
    · cases stepped
  | reopen candidate =>
    cases stepped
    refine inv.pass top rfl nofun nofun (fun _ => id) fun next mem => ?_
    split at mem
    · cases mem
    · rw [List.mem_singleton.mp mem]
      trivial
  | attach member joins =>
    cases held : s.writer with
    | none => exact inv.beginAttach top held orderly stepped
    | some holder =>
      obtain ⟨t', conn⟩ := holder
      rcases eq_or_ne t' t with rfl | other
      · exact inv.endAttach top held orderly stepped
      · simp only [State.stepTask, held, if_neg other] at stepped
        cases stepped
  | abandon id joins =>
    cases stepped
    exact inv.abandon top orderly
  | broadcast =>
    cases stepped
    refine inv.passOn top rfl nofun (inv.not_writer top fun _ _ => nofun) (fun next mem => ?_)
      (.inr (.inl ⟨t, s.cluster.members, mem_after (List.mem_singleton_self _)⟩))
    rw [List.mem_singleton.mp mem]
    exact ⟨Nat.le_refl _, fun _ => rfl⟩
  | snapshot version list =>
    cases stepped
    exact inv.snapshot top
  | sending version list todo failed =>
    cases todo with
    | nil =>
      cases stepped
      have dropped : ∀ {id : UInt32}, id ∈ failed →
          ∃ next ∈ failed.map Task.drop, next.drops id :=
        fun {id} mem => ⟨.drop id, List.mem_map_of_mem mem, rfl⟩
      refine inv.next top nofun (inv.not_writer top fun _ _ => nofun)
        (fun id _ _ drop => dropped drop) (fun next mem => ?_)
        (spreading_next inv top nofun nofun (fun _ _ _ eq _ _ _ ahead => ?_)
          fun id _ _ drop => dropped drop)
      · obtain ⟨id, -, rfl⟩ := List.mem_map.mp mem
        trivial
      · cases eq
        cases ahead
    | cons conn todo => exact inv.send top orderly stepped
  | drop id =>
    simp only [State.stepTask] at stepped
    split at stepped
    · rename_i absent
      cases stepped
      exact inv.dropAgain top absent
    · cases stepped
      exact inv.drop top
  | remove id =>
    cases stepped
    exact inv.remove top orderly

omit [DecidableEq β] in
/-- An idle thread begins. -/
theorem Inv.start (inv : Inv s) (tasks : List Task) (idle : s.thread t = [])
    (fresh : ∀ task ∈ tasks, task.Fresh s) : Inv (s.put t (tasks ++ [])) := by
  have nothing : ∀ {p : Task → Prop}, ¬∃ task ∈ ([] : List Task), p task := by
    rintro p ⟨task, mem, -⟩
    cases mem
  refine inv.put [] idle (fun id attempt => absurd attempt nothing) (fun conn holds => ?_)
    (fun id _ _ drop => absurd drop nothing) fresh
    (spreading_put [] inv.spreading idle nofun nofun nofun fun id _ _ drop => absurd drop nothing)
  obtain ⟨member, joins, rest', b, top, -⟩ := inv.writer t conn holds
  rw [idle] at top
  cases top

theorem Inv.step {label : Label τ β} (inv : Inv s) (orderly : Orderly s label)
    (stepped : Membership.step s label = some s') : Inv s' := by
  cases label with
  | join t host port =>
    simp only [Membership.step] at stepped
    split at stepped
    · rename_i idle
      cases stepped
      exact inv.start [.assign host port] idle fun task mem => by
        rw [List.mem_singleton.mp mem]
        trivial
    · cases stepped
  | election t candidate =>
    simp only [Membership.step] at stepped
    split at stepped
    · rename_i idle
      cases stepped
      refine inv.start [.reassure candidate, .reopen candidate] idle fun task mem => ?_
      rcases List.mem_cons.mp mem with rfl | mem
      · trivial
      · rw [List.mem_singleton.mp mem]
        trivial
    · cases stepped
  | fault t id =>
    simp only [Membership.step] at stepped
    split at stepped
    · rename_i idle
      cases stepped
      have begun := inv.start [.drop id] idle fun task mem => by
        rw [List.mem_singleton.mp mem]
        trivial
      refine begun.setLate (s.cluster.links[id]?.toList ++ s.down) (fun conn failed => ?_)
        (fun t' conn holds failed => ?_)
        (fun entry mem => List.mem_append_right _ (inv.late entry mem))
        fun other conn live failed => ?_
      · rcases List.mem_append.mp failed with live | before
        · obtain ⟨_, _, linked, -⟩ := inv.links id conn (Option.mem_toList.mp live)
          exact linked.old
        · exact inv.old conn before
      · obtain ⟨_, _, _, _, _, _, up, apart, -⟩ := inv.writer t' conn holds
        rcases List.mem_append.mp failed with live | before
        · exact apart id (Option.mem_toList.mp live)
        · exact up before
      · rcases List.mem_append.mp failed with here | before
        · refine .inr ⟨t, .drop id, mem_after (List.mem_singleton_self _), ?_⟩
          obtain ⟨member, b, linked, rfl, -⟩ := inv.links other conn live
          obtain ⟨member', b', linked', rfl, -⟩ := inv.links id conn (Option.mem_toList.mp here)
          cases linked.ends.symm.trans linked'.ends
          rfl
        · exact .inl before
    · cases stepped
  | step t outcome =>
    simp only [Membership.step] at stepped
    split at stepped
    · cases stepped
    · rename_i task rest top
      obtain ⟨⟨s₁, tasks⟩, taken, rfl⟩ := Option.map_eq_some_iff.mp stepped
      refine inv.stepTask top ?_ taken
      simp only [Orderly, top] at orderly
      exact orderly
  | lateAttach k =>
    simp only [Membership.step] at stepped
    split at stepped
    · cases stepped
    · rename_i conn list sent
      obtain ⟨b, peer, rfl⟩ := Option.map_eq_some_iff.mp stepped
      have attached := inv.attachedLate conn list (orderly conn list b sent peer)
      exact attached.setLate _ attached.old (fun t c holds => by
        obtain ⟨_, _, _, _, _, _, up, -⟩ := attached.writer t c holds
        exact up) attached.late fun _ _ _ failed => .inl failed
  | lateUpdate k =>
    simp only [Membership.step] at stepped
    split at stepped
    · cases stepped
    · rename_i conn list sent
      obtain ⟨b, peer, rfl⟩ := Option.map_eq_some_iff.mp stepped
      have taken : Inv { s with lateUpdate := s.lateUpdate.eraseIdx k } :=
        inv.setLate s.down inv.old (fun t c holds => by
          obtain ⟨_, _, _, _, _, _, up, -⟩ := inv.writer t c holds
          exact up) (fun entry mem => inv.late entry (List.mem_of_mem_eraseIdx mem))
          fun _ _ _ failed => .inl failed
      split
      · rename_i followed
        exact taken.updated (inv.late _ (List.mem_of_getElem? sent)) followed
      · exact taken
  | closed b =>
    cases stepped
    exact inv.closed

end Steps

/-- Every handler and broadcast has ended. -/
def Quiet (s : State τ β) : Prop := ∀ t, s.thread t = []

/-- Every backup with a link knows the primary's members. -/
def Agreement (s : State τ β) : Prop :=
  ∀ (id : UInt32) conn b, s.cluster.links[id]? = some conn → s.peer? conn = some b → Agrees s b

/-- At rest, nothing but the newest list is left. -/
theorem Inv.agreement (inv : Inv s) (quiet : Quiet s) : Agreement s := by
  have nothing : ∀ {t task}, task ∉ s.thread t := by
    intro t task
    rw [quiet t]
    exact List.not_mem_nil
  intro id conn b live peer
  rcases inv.spreading with ⟨t, task, mem, -⟩ | ⟨t, list, mem⟩ | covered
  · exact absurd mem nothing
  · exact absurd mem nothing
  · rcases covered id conn live with ⟨-, agrees⟩ | ⟨t, _, _, _, mem, -⟩ | ⟨t, task, mem, -⟩
    · exact agrees b peer
    · exact absurd mem nothing
    · exact absurd mem nothing

end Safety

/-- A primary without links, as `start_as_primary` and the critical section of
`become_primary` leave it, before its threads do anything. -/
structure Starts (s : State τ β) : Prop where
  self : s.cluster.self ∈ s.cluster.members
  unique : ∀ m ∈ s.cluster.members, ∀ m' ∈ s.cluster.members, m.id = m'.id → m = m'
  unlinked : s.cluster.links = ∅
  idle : Quiet s
  free : s.writer = none
  sound : s.down = []
  settled : s.lateUpdate = []

theorem Starts.inv {s : State τ β} (starts : Starts s) : Inv s := by
  have dead : ∀ (id : UInt32) conn, s.cluster.links[id]? ≠ some conn := by
    intro id conn live
    rw [starts.unlinked, ExtTreeMap.getElem?_empty] at live
    cases live
  exact {
    self := starts.self
    unique := starts.unique
    links := fun id conn live => absurd live (dead id conn)
    follows := fun id conn _ _ live => absurd live (dead id conn)
    writer := fun t conn holds => by
      rw [starts.free] at holds
      cases holds
    old := fun conn failed => by
      rw [starts.sound] at failed
      cases failed
    late := fun entry mem => by
      rw [starts.settled] at mem
      cases mem
    down := fun id conn live => absurd live (dead id conn)
    fresh := fun t task mem => by
      rw [starts.idle t] at mem
      cases mem
    spreading := .inr (.inr fun id conn live => absurd live (dead id conn)) }

section Examples

/-- A new cluster, two threads and two servers that know their ids. -/
def founded : State Bool Bool where
  cluster := (Cluster.init (bytes "a") 4000).startAsPrimary
  backup i := (Cluster.init (bytes "a") (if i then 4001 else 4002)).join (if i then 999 else 998)
    1000 (bytes "a") 4000
  conn := fun _ => none
  nextConn := 0
  down := []
  lateAttach := []
  lateUpdate := []
  writer := none
  thread := fun _ => []
  version := 0
  told := fun _ => 0

theorem starts_founded : Starts founded where
  self := List.mem_singleton_self _
  unique _ mem _ mem' _ := (List.mem_singleton.mp mem).trans (List.mem_singleton.mp mem').symm
  unlinked := rfl
  idle _ := rfl
  free := rfl
  sound := rfl
  settled := rfl

private def go (t : Bool) : Label Bool Bool := .step t .done

/-- A server joins, up to its broadcast. -/
def joining (t i : Bool) : List (Label Bool Bool) :=
  [.join t (bytes "a") (if i then 4001 else 4002), go t, go t, .step t (.reached i), go t]

/-- The first server's broadcast reaches it; the second joins. -/
def bothJoined : List (Label Bool Bool) :=
  joining false true ++ [go false, go false, go false, go false] ++ joining false false

/-- The second server fails: it is dropped, and the new list is taken. -/
def dropped (t : Bool) : List (Label Bool Bool) := [.fault t 998, go t, go t, go t]

/-- The broadcast of the second join has its list when the second server is
dropped, and reaches the first server after the broadcast of the drop. -/
def overtaken : List (Label Bool Bool) :=
  bothJoined ++ [go false] ++ dropped true ++ [go false, go true, go true, go true, go false,
    go false]

/-- The second join's broadcast goes out to both. -/
def inTurn : List (Label Bool Bool) :=
  bothJoined ++ [go false, go false, go false, go false, go false]

end Examples

end SisOp.Membership
