import SisOp.Cluster.State
import SisOp.Lib.Run

/-!
# Which links are dropped

The threads of a primary that use its links: `heartbeat_links`,
`broadcast_membership`, `replicate_put`, `replicate_delete` and
`replicate_account`, each of which remembers the ids of the links that failed and
drops them once it has gone through all links, and `attach_replica`, which puts a
new link under an id. The replicating threads and `attach_replica` hold the write
mutex; the other two do not. A step is one critical section or one exchange.

`dropped_failed`: a link that `drop_link` takes out is one an exchange failed on, in
every run in which no thread without the write mutex drops a member whose link was
replaced, without failing again, since the failure it remembers.
-/

namespace SisOp.Drops

open Lib Std

/-! ## The threads -/

/-- A connection to a backup, numbered. -/
structure Link where
  member : ServerAddress
  conn : Nat
  deriving DecidableEq

/-- What is sent over every link. -/
inductive Kind where
  | heartbeat | membership | account | put | delete
  deriving DecidableEq

/-- It is sent by a thread that holds the write mutex. -/
def Kind.replicates : Kind → Bool
  | .account | .put | .delete => true
  | .heartbeat | .membership => false

/-- What a thread still has to do. The code remembers of a link that failed only
the member's id. -/
inductive Task where
  | snapshot (kind : Kind)
  | exchanges (kind : Kind) (todo failed : List Link)
  | drop (failed : Link)
  | remove (id : UInt32) (link : Link)
  | shut (link : Link)
  | connect (member : ServerAddress)
  | attach (link : Link)
  | resync (link : Link)
  deriving DecidableEq

structure State where
  cluster : Cluster Link
  /-- The thread that holds the write mutex. -/
  holder : Option Nat
  threads : Nat → List Task
  nextConn : Nat
  /-- The connections on which an exchange failed. -/
  failed : List Nat
  /-- The links `drop_link` took out of `links_`. -/
  dropped : List Link

/-- A primary without links. -/
def State.initial (c : Cluster Link) : State where
  cluster := { c with links := ∅ }
  holder := none
  threads _ := []
  nextConn := 0
  failed := []
  dropped := []

/-- How an exchange ends; a heartbeat skips a link that is busy. -/
inductive Outcome where
  | ok | failed | busy
  deriving DecidableEq

/-- A thread starts one of the functions, takes its next step or, at the end of
`attach_replica`, makes its link live; members come and go by other threads. -/
inductive Act where
  | start (t : Nat) (kind : Kind)
  | attach (t : Nat) (member : ServerAddress)
  | next (t : Nat) (outcome : Outcome)
  | live (t : Nat)
  | addMember (member : ServerAddress)
  | removeMember (id : UInt32)

namespace State

/-- The thread goes on with these tasks; without any it has returned, and released
the write mutex if it held it. -/
def put (s : State) (t : Nat) (tasks : List Task) : State :=
  { s with
    threads := fun u => if u = t then tasks else s.threads u
    holder := if tasks = [] ∧ s.holder = some t then none else s.holder }

def fail (s : State) (link : Link) : State := { s with failed := link.conn :: s.failed }

/-- One step of thread `t`, whose first task is `task`. -/
def nextTask (s : State) (t : Nat) (outcome : Outcome) (rest : List Task) : Task → Option State
  | .snapshot kind =>
    some (s.put t (.exchanges kind (s.cluster.links.toList.map Prod.snd) [] :: rest))
  | .exchanges _ [] failed => some (s.put t (failed.map .drop ++ rest))
  | .exchanges kind (link :: todo) failed =>
    match outcome with
    | .ok => some (s.put t (.exchanges kind todo failed :: rest))
    | .failed => some ((s.fail link).put t (.exchanges kind todo (failed ++ [link]) :: rest))
    | .busy =>
      if kind = .heartbeat then some (s.put t (.exchanges kind todo failed :: rest)) else none
  | .drop failed =>
    match s.cluster.links[failed.member.id]? with
    | none => some (s.put t rest)
    | some link =>
      some ({ s with
        cluster := s.cluster.takeLink failed.member.id
        dropped := link :: s.dropped }.put t (.remove failed.member.id link :: rest))
  | .remove id link =>
    some ({ s with cluster := s.cluster.removeMember id }.put t (.shut link :: rest))
  | .shut _ => some (s.put t (.snapshot .membership :: rest))
  | .connect member =>
    match outcome with
    | .ok =>
      some ({ s with nextConn := s.nextConn + 1 }.put t (.attach ⟨member, s.nextConn⟩ :: rest))
    | .failed => some (s.put t rest)
    | .busy => none
  | .attach link | .resync link =>
    match outcome with
    | .ok => some (s.put t (.resync link :: rest))
    | .failed => some ((s.fail link).put t rest)
    | .busy => none

/-- The end of `attach_replica`: the link goes live, whatever link was there. -/
def goLive (s : State) (t : Nat) (link : Link) (rest : List Task) : State :=
  { s with cluster := s.cluster.setLink link.member.id link }.put t rest

end State

def step (s : State) : Act → Option State
  | .start t kind =>
    if s.threads t = [] ∧ (kind.replicates = true → s.holder = none) then
      some ({ s with holder := if kind.replicates then some t else s.holder }.put t
        [.snapshot kind])
    else none
  | .attach t member =>
    if s.threads t = [] ∧ s.holder = none then
      some ({ s with holder := some t }.put t [.connect member])
    else none
  | .next t outcome =>
    match s.threads t with
    | [] => none
    | task :: rest => s.nextTask t outcome rest task
  | .live t =>
    match s.threads t with
    | .resync link :: rest => some (s.goLive t link rest)
    | _ => none
  | .addMember member => some { s with cluster := s.cluster.addMember member }
  | .removeMember id => some { s with cluster := s.cluster.removeMember id }

/-! ## The condition -/

/-- If the thread drops a member next and does not hold the write mutex, it finds
under the id the link that failed, or one that has failed too, or none. -/
def FindsFailed (s : State) (t : Nat) : List Task → Prop
  | .drop failed :: _ =>
    s.holder ≠ some t →
      ∀ now ∈ s.cluster.links[failed.member.id]?, now.conn = failed.conn ∨ now.conn ∈ s.failed
  | _ => True

def Unreplaced (s : State) : Act → Prop
  | .next t _ => FindsFailed s t (s.threads t)
  | _ => True

instance (s : State) (t : Nat) : ∀ tasks, Decidable (FindsFailed s t tasks)
  | .drop _ :: _ => inferInstanceAs (Decidable (_ ≠ _ → ∀ now ∈ _, _ ∨ _))
  | [] | .snapshot _ :: _ | .exchanges _ _ _ :: _ | .remove _ _ :: _ | .shut _ :: _
  | .connect _ :: _ | .attach _ :: _ | .resync _ :: _ => isTrue trivial

instance (s : State) : ∀ a, Decidable (Unreplaced s a)
  | .next t _ => inferInstanceAs (Decidable (FindsFailed s t (s.threads t)))
  | .start _ _ | .attach _ _ | .live _ | .addMember _ | .removeMember _ => isTrue trivial

/-! ## The invariant -/

/-- The links a task remembers as failed. -/
def Task.remembers : Task → List Link
  | .exchanges _ _ failed => failed
  | .drop failed => [failed]
  | _ => []

/-- The links a task took from `links_` and has not dropped. -/
def Task.knows : Task → List Link
  | .exchanges _ todo failed => todo ++ failed
  | .drop failed => [failed]
  | _ => []

def Task.attaches : Task → Bool
  | .connect _ | .attach _ | .resync _ => true
  | _ => false

/-- What a thread remembers did fail, what it is about to remove had failed, and
while it holds the write mutex nobody replaces a link it knows. -/
structure TaskOk (s : State) (t : Nat) (task : Task) : Prop where
  remembered : ∀ link ∈ task.remembers, link.conn ∈ s.failed
  held : s.holder = some t → ∀ link ∈ task.knows,
    ∀ now ∈ s.cluster.links[link.member.id]?, now = link
  removing : ∀ id link, task = .remove id link → link.conn ∈ s.failed ∧ link.member.id = id

structure Inv (s : State) : Prop where
  keyed : ∀ (id : UInt32) link, s.cluster.links[id]? = some link → link.member.id = id
  tasks : ∀ t, ∀ task ∈ s.threads t, TaskOk s t task
  alone : ∀ t, ∀ task ∈ s.threads t, task.attaches = true →
    s.threads t = [task] ∧ s.holder = some t
  dropped : ∀ link ∈ s.dropped, link.conn ∈ s.failed

section Steps

variable {s s' : State} {t : Nat} {tasks rest : List Task} {task : Task} {link : Link}

theorem TaskOk.mono (ok : TaskOk s t task)
    (links : ∀ (id : UInt32) link, s'.cluster.links[id]? = some link →
      s.cluster.links[id]? = some link)
    (holder : s'.holder = some t → s.holder = some t)
    (failed : ∀ conn ∈ s.failed, conn ∈ s'.failed) : TaskOk s' t task where
  remembered link mem := failed _ (ok.remembered link mem)
  held holds link mem now there := ok.held (holder holds) link mem now (links _ _ there)
  removing id link eq := ⟨failed _ (ok.removing id link eq).1, (ok.removing id link eq).2⟩

/-- Fewer links and more failures change nothing for the threads. -/
theorem Inv.mono (inv : Inv s)
    (links : ∀ (id : UInt32) link, s'.cluster.links[id]? = some link →
      s.cluster.links[id]? = some link)
    (holder : s'.holder = s.holder) (threads : s'.threads = s.threads)
    (failed : ∀ conn ∈ s.failed, conn ∈ s'.failed)
    (dropped : ∀ link ∈ s'.dropped, link.conn ∈ s'.failed) : Inv s' where
  keyed id link there := inv.keyed id link (links id link there)
  tasks t task mem := by
    rw [threads] at mem
    exact (inv.tasks t task mem).mono links (fun holds => holder ▸ holds) failed
  alone t task mem attaches := by
    rw [threads] at mem ⊢
    rw [holder]
    exact inv.alone t task mem attaches
  dropped := dropped

theorem Inv.put (inv : Inv s) (ok : ∀ task ∈ tasks, TaskOk s t task)
    (alone : ∀ task ∈ tasks, task.attaches = true → tasks = [task] ∧ s.holder = some t) :
    Inv (s.put t tasks) where
  keyed := inv.keyed
  tasks u task mem := by
    have kept : TaskOk s u task := by
      dsimp only [State.put] at mem
      split at mem
      · subst u
        exact ok task mem
      · exact inv.tasks u task mem
    refine kept.mono (fun _ _ there => there) (fun holds => ?_) fun _ mem => mem
    dsimp only [State.put] at holds
    split at holds
    · cases holds
    · exact holds
  alone u task mem attaches := by
    dsimp only [State.put] at mem ⊢
    split at mem
    · subst u
      obtain ⟨single, holds⟩ := alone task mem attaches
      rw [if_pos rfl, if_neg (by rw [single]; exact fun both => nomatch both.1)]
      exact ⟨single, holds⟩
    · rename_i other
      obtain ⟨single, holds⟩ := inv.alone u task mem attaches
      rw [if_neg other, if_neg]
      · exact ⟨single, holds⟩
      · rw [holds]
        exact fun both => other (Option.some.inj both.2)
  dropped := inv.dropped

/-- A thread goes on with new tasks before the rest. -/
theorem Inv.goOn {new : List Task} (inv : Inv s) (here : s.threads t = task :: rest)
    (ok : ∀ task ∈ new, TaskOk s t task)
    (plain : ∀ task ∈ new, task.attaches = false) : Inv (s.put t (new ++ rest)) := by
  refine inv.put (fun r mem => ?_) fun r mem attaches => ?_
  · rcases List.mem_append.mp mem with mem | mem
    · exact ok r mem
    · exact inv.tasks t r (by rw [here]; exact List.mem_cons_of_mem _ mem)
  · rcases List.mem_append.mp mem with mem | mem
    · rw [plain r mem] at attaches
      cases attaches
    · have single := (inv.alone t r (by rw [here]; exact List.mem_cons_of_mem _ mem) attaches).1
      rw [here, List.cons.injEq] at single
      rw [single.2] at mem
      cases mem

theorem Inv.goOn_one {new : Task} (inv : Inv s) (here : s.threads t = task :: rest)
    (ok : TaskOk s t new) (plain : new.attaches = false) : Inv (s.put t (new :: rest)) :=
  inv.goOn here (List.forall_mem_singleton.mpr ok) (List.forall_mem_singleton.mpr plain)

theorem TaskOk.of_empty (remembers : task.remembers = []) (knows : task.knows = [])
    (removes : ∀ id link, task ≠ .remove id link) : TaskOk s t task where
  remembered link mem := by
    rw [remembers] at mem
    cases mem
  held _ link mem := by
    rw [knows] at mem
    cases mem
  removing id link eq := absurd eq (removes id link)

theorem Inv.fail (inv : Inv s) (link : Link) : Inv (s.fail link) :=
  inv.mono (fun _ _ there => there) rfl rfl (fun _ mem => List.mem_cons_of_mem _ mem)
    fun l mem => List.mem_cons_of_mem _ (inv.dropped l mem)

/-- `drop_link` finds a link an exchange failed on. -/
theorem Inv.take {id : UInt32} (inv : Inv s) (failed : link.conn ∈ s.failed) :
    Inv { s with cluster := s.cluster.takeLink id, dropped := link :: s.dropped } := by
  refine inv.mono (fun id' link' there => ?_) rfl rfl (fun _ mem => mem) fun l mem => ?_
  · dsimp only [Cluster.takeLink] at there
    rw [Map.getElem?_erase] at there
    split at there
    · cases there
    · exact there
  · rcases List.mem_cons.mp mem with rfl | mem
    · exact failed
    · exact inv.dropped l mem

/-- The link a thread finds under the id it drops is one an exchange failed on, exactly
when the condition holds; while the thread holds the write mutex it always does. -/
theorem unreplaced_iff {failed : Link} {outcome : Outcome} (inv : Inv s)
    (here : s.threads t = .drop failed :: rest)
    (there : s.cluster.links[failed.member.id]? = some link) :
    Unreplaced s (.next t outcome) ↔ link.conn ∈ s.failed := by
  have ok := inv.tasks t (.drop failed) (by rw [here]; exact List.mem_cons_self)
  have remembered := ok.remembered failed (List.mem_singleton_self _)
  rw [Unreplaced, here]
  constructor
  · intro finds
    by_cases holds : s.holder = some t
    · rw [ok.held holds failed (List.mem_singleton_self _) link there]
      exact remembered
    · rcases finds holds link there with same | again
      · rw [same]
        exact remembered
      · exact again
  · intro down _ now found
    rw [Option.mem_def, there] at found
    cases found
    exact .inr down

theorem Inv.nextTask {outcome : Outcome} (inv : Inv s) (here : s.threads t = task :: rest)
    (unreplaced : Unreplaced s (.next t outcome))
    (stepped : s.nextTask t outcome rest task = some s') : Inv s' := by
  have ok := inv.tasks t task (by rw [here]; exact List.mem_cons_self)
  have only := inv.alone t task (by rw [here]; exact List.mem_cons_self)
  -- a thread in `attach_replica` has nothing else to do
  have attaching : task.attaches = true → rest = [] ∧ s.holder = some t := by
    intro attaches
    obtain ⟨single, holds⟩ := only attaches
    rw [here, List.cons.injEq] at single
    exact ⟨single.2, holds⟩
  cases task with
  | snapshot kind =>
    cases stepped
    refine inv.goOn_one here ⟨nofun, fun _ link mem now there => ?_, nofun⟩ rfl
    rw [Task.knows, List.append_nil] at mem
    obtain ⟨⟨id, l⟩, entry, rfl⟩ := List.mem_map.mp mem
    have there' := Map.mem_toList_iff.mp entry
    rw [inv.keyed id l there', there'] at there
    exact (Option.some.inj there).symm
  | exchanges kind todo failed =>
    cases todo with
    | nil =>
      cases stepped
      refine inv.goOn here (fun r mem => ?_) fun r mem => ?_
      · obtain ⟨l, known, rfl⟩ := List.mem_map.mp mem
        refine ⟨fun link same => ?_, fun holds link same => ?_, nofun⟩
        · rw [List.mem_singleton.mp same]
          exact ok.remembered l known
        · rw [List.mem_singleton.mp same]
          exact ok.held holds l known
      · obtain ⟨l, mem, rfl⟩ := List.mem_map.mp mem
        rfl
    | cons link todo =>
      have skipped : Inv (s.put t (.exchanges kind todo failed :: rest)) :=
        inv.goOn_one here ⟨ok.remembered, fun holds l mem =>
          ok.held holds l (List.mem_cons_of_mem _ mem), nofun⟩ rfl
      cases outcome with
      | ok =>
        cases stepped
        exact skipped
      | failed =>
        cases stepped
        refine (inv.fail link).goOn_one here ⟨fun l mem => ?_, fun holds l mem => ?_, nofun⟩ rfl
        · rcases List.mem_append.mp mem with old | new
          · exact List.mem_cons_of_mem _ (ok.remembered l old)
          · rw [List.mem_singleton.mp new]
            exact List.mem_cons_self
        · refine ok.held holds l ?_
          rcases List.mem_append.mp mem with old | new
          · exact List.mem_cons_of_mem _ (List.mem_append_left _ old)
          · rcases List.mem_append.mp new with old | new
            · exact List.mem_cons_of_mem _ (List.mem_append_right _ old)
            · rw [List.mem_singleton.mp new]
              exact List.mem_cons_self
      | busy =>
        rw [State.nextTask] at stepped
        split at stepped <;> cases stepped
        exact skipped
  | drop failed =>
    rw [State.nextTask] at stepped
    split at stepped
    · cases stepped
      exact inv.goOn here (List.forall_mem_nil _) (List.forall_mem_nil _)
    · rename_i link there
      cases stepped
      have down := (unreplaced_iff inv here there).mp unreplaced
      refine (inv.take down).goOn_one here ⟨nofun, fun _ => nofun, fun id l eq => ?_⟩ rfl
      cases eq
      exact ⟨down, inv.keyed _ _ there⟩
  | remove id link =>
    cases stepped
    have removed : Inv { s with cluster := s.cluster.removeMember id } :=
      inv.mono (fun _ _ there => there) rfl rfl (fun _ mem => mem) inv.dropped
    exact removed.goOn_one here (.of_empty rfl rfl nofun) rfl
  | shut link =>
    cases stepped
    exact inv.goOn_one here (.of_empty rfl rfl nofun) rfl
  | connect member =>
    obtain ⟨rfl, holds⟩ := attaching rfl
    cases outcome with
    | ok =>
      cases stepped
      have numbered : Inv { s with nextConn := s.nextConn + 1 } :=
        inv.mono (fun _ _ there => there) rfl rfl (fun _ mem => mem) inv.dropped
      exact numbered.put (List.forall_mem_singleton.mpr (.of_empty rfl rfl nofun))
        (List.forall_mem_singleton.mpr fun _ => ⟨rfl, holds⟩)
    | failed =>
      cases stepped
      exact inv.put nofun nofun
    | busy => cases stepped
  | attach link | resync link =>
    obtain ⟨rfl, holds⟩ := attaching rfl
    cases outcome with
    | ok =>
      cases stepped
      exact inv.put (List.forall_mem_singleton.mpr (.of_empty rfl rfl nofun))
        (List.forall_mem_singleton.mpr fun _ => ⟨rfl, holds⟩)
    | failed =>
      cases stepped
      exact (inv.fail link).put nofun nofun
    | busy => cases stepped

/-- The new link goes live while its thread holds the write mutex, so no thread that
replicates knows the link it replaces. -/
theorem Inv.goLive (inv : Inv s) (here : s.threads t = .resync link :: rest) :
    Inv (s.goLive t link rest) := by
  obtain ⟨single, holds⟩ := inv.alone t (.resync link) (by rw [here]; exact List.mem_cons_self) rfl
  rw [here, List.cons.injEq] at single
  obtain ⟨-, rfl⟩ := single
  have free : (s.goLive t link []).holder = none := if_pos ⟨rfl, holds⟩
  constructor
  · intro id l there
    change (s.cluster.links.insert link.member.id link)[id]? = some l at there
    rw [Map.getElem?_insert] at there
    split at there
    · cases there
      exact Eq.symm ‹_›
    · exact inv.keyed id l there
  · intro u task mem
    change task ∈ (if u = t then [] else s.threads u) at mem
    split at mem
    · cases mem
    · refine ⟨(inv.tasks u task mem).remembered, fun held => ?_, (inv.tasks u task mem).removing⟩
      rw [free] at held
      cases held
  · intro u task mem attaches
    change task ∈ (if u = t then [] else s.threads u) at mem
    split at mem
    · cases mem
    · rename_i other
      have holds' := (inv.alone u task mem attaches).2
      rw [holds] at holds'
      exact absurd (Option.some.inj holds').symm other
  · exact inv.dropped

/-- A thread takes the write mutex. -/
theorem Inv.lock (inv : Inv s) (idle : s.threads t = []) (free : s.holder = none) :
    Inv { s with holder := some t } where
  keyed := inv.keyed
  tasks u task mem := by
    refine ⟨(inv.tasks u task mem).remembered, fun holds => ?_, (inv.tasks u task mem).removing⟩
    cases holds
    dsimp only at mem
    rw [idle] at mem
    cases mem
  alone u task mem attaches := by
    have holds := (inv.alone u task mem attaches).2
    rw [free] at holds
    cases holds
  dropped := inv.dropped

theorem Inv.step {a : Act} (inv : Inv s) (unreplaced : Unreplaced s a)
    (stepped : step s a = some s') : Inv s' := by
  cases a with
  | start t kind =>
    rw [Drops.step] at stepped
    split at stepped <;> cases stepped
    rename_i enabled
    have begins : ∀ {s : State}, Inv s → Inv (s.put t [.snapshot kind]) := fun inv =>
      inv.put (List.forall_mem_singleton.mpr (.of_empty rfl rfl nofun))
        (List.forall_mem_singleton.mpr nofun)
    split
    · rename_i replicates
      exact begins (inv.lock enabled.1 (enabled.2 replicates))
    · exact begins inv
  | attach t member =>
    rw [Drops.step] at stepped
    split at stepped <;> cases stepped
    rename_i enabled
    exact (inv.lock enabled.1 enabled.2).put
      (List.forall_mem_singleton.mpr (.of_empty rfl rfl nofun))
      (List.forall_mem_singleton.mpr fun _ => ⟨rfl, rfl⟩)
  | next t outcome =>
    rw [Drops.step] at stepped
    split at stepped
    · cases stepped
    · rename_i task rest here
      exact inv.nextTask here unreplaced stepped
  | live t =>
    rw [Drops.step] at stepped
    split at stepped
    · rename_i link rest here
      cases stepped
      exact inv.goLive here
    · cases stepped
  | addMember member =>
    cases stepped
    exact inv.mono (fun _ _ there => there) rfl rfl (fun _ mem => mem) inv.dropped
  | removeMember id =>
    cases stepped
    exact inv.mono (fun _ _ there => there) rfl rfl (fun _ mem => mem) inv.dropped

theorem inv_initial (c : Cluster Link) : Inv (.initial c) where
  keyed _ _ there := nomatch there.symm.trans ExtTreeMap.getElem?_empty
  tasks _ _ mem := nomatch mem
  alone _ _ mem := nomatch mem
  dropped := nofun

end Steps

/-! ## The law -/

/-- **Only failed links are dropped.** In every run in which no thread without the
write mutex drops a member whose link was replaced by one that has not failed, an
exchange had failed on each link that `drop_link` took out, and has failed on it
whenever its member is about to be removed. -/
theorem dropped_failed {c : Cluster Link} {as : List Act} {s : State}
    (unreplaced : Meets step Unreplaced (.initial c) as)
    (ran : run step (.initial c) as = some s) :
    (∀ link ∈ s.dropped, link.conn ∈ s.failed) ∧
      ∀ t id link, .remove id link ∈ s.threads t → link.member.id = id ∧ link.conn ∈ s.failed := by
  have inv : Inv s := run_invariant (fun _ _ _ inv ok stepped => inv.step ok stepped)
    (inv_initial c) unreplaced ran
  refine ⟨inv.dropped, fun t id link mem => ?_⟩
  exact ((inv.tasks t _ mem).removing id link rfl).symm

section Examples

def primary : Cluster Link := (Cluster.init (bytes "p") 1).startAsPrimary

def backup : ServerAddress := ⟨999, bytes "b", 2⟩

/-- A whole `attach_replica` of the backup: connected, a manifest, the link live. -/
def attaching (t : Nat) : List Act := [.attach t backup, .next t .ok, .next t .ok, .live t]

/-- A heartbeat on the one link fails. -/
def heartbeatFails (t : Nat) : List Act :=
  [.start t .heartbeat, .next t .ok, .next t .failed, .next t .ok]

/-- The backup is dropped before it is attached again. -/
theorem dropped_failed_in_turn :
    ∃ s, run step (.initial primary)
      (attaching 0 ++ heartbeatFails 1 ++ .next 1 .ok :: attaching 0) =
        some s ∧ s.dropped = [⟨backup, 0⟩] ∧ 0 ∈ s.failed := by
  obtain ⟨s, ran⟩ : ∃ s, run step (.initial primary)
      (attaching 0 ++ heartbeatFails 1 ++ .next 1 .ok :: attaching 0) = some s :=
    Option.isSome_iff_exists.mp (by decide +kernel)
  have dropped : (run step (.initial primary)
      (attaching 0 ++ heartbeatFails 1 ++ .next 1 .ok :: attaching 0)).map State.dropped =
        some [⟨backup, 0⟩] := by
    decide +kernel
  rw [ran, Option.map_some, Option.some.injEq] at dropped
  refine ⟨s, ran, dropped, (dropped_failed (by decide +kernel) ran).1 ⟨backup, 0⟩ ?_⟩
  rw [dropped]
  exact List.mem_singleton_self _

/-- The backup is attached again between the failed heartbeat and `drop_link`. -/
theorem fresh_link_dropped :
    ¬∀ (c : Cluster Link) (as : List Act) (s : State), run step (.initial c) as = some s →
      ∀ link ∈ s.dropped, link.conn ∈ s.failed := by
  intro claim
  obtain ⟨s, ran⟩ : ∃ s, run step (.initial primary)
      (attaching 0 ++ heartbeatFails 1 ++ attaching 0 ++ [.next 1 .ok]) = some s :=
    Option.isSome_iff_exists.mp (by decide +kernel)
  have after : (run step (.initial primary)
      (attaching 0 ++ heartbeatFails 1 ++ attaching 0 ++ [.next 1 .ok])).map (fun s =>
        (s.dropped, s.failed)) = some ([⟨backup, 1⟩], [0]) := by
    decide +kernel
  rw [ran, Option.map_some, Option.some.injEq, Prod.mk.injEq] at after
  have failed := claim _ _ s ran ⟨backup, 1⟩ (by rw [after.1]; exact List.mem_singleton_self _)
  rw [after.2] at failed
  exact absurd failed (by decide)

end Examples

end SisOp.Drops
