import SisOp.Cluster.Handlers

/-!
# Links and members

What `links_`, `members_` and `role_` of one server have to do with each other,
over every interleaving of its threads.

Main result: `consistent_of_run`, a primary at rest is linked to exactly its
members and a server that is not primary to nobody, in every run in which a link
opens on a primary that lists the member, a member is removed only without a
link, and no `Membership` is applied after a takeover.
-/

namespace SisOp.Bookkeeping

open Lib Std Handlers

variable {L : Type}

/-- A handler with this ahead will link the member or remove it. -/
def settles (id : UInt32) : Task → Prop
  | .attach member _ => member.id = id
  | .abandon removed | .remove removed => removed = id
  | _ => False

/-- `become_primary` with this ahead will. -/
def awaits (id : UInt32) : Phase → Prop
  | .leading todo => ∃ m ∈ todo, m.id = id
  | .forsaking removed todo => removed = id ∨ ∃ m ∈ todo, m.id = id
  | .telling tasks => ∃ task ∈ tasks, settles id task
  | _ => False

def Attaching (s : State L) : Prop :=
  (∃ handler ∈ s.handlers, ∃ member joins, Task.attach member joins ∈ handler) ∨
    ∃ member todo, s.election = .leading (member :: todo)

/-- The thread of `run_election` is not in `become_primary`. -/
def Undecided : Phase → Prop
  | .leading _ | .forsaking .. | .telling _ => False
  | _ => True

/-- No handler is running. -/
def Idle (s : State L) : Prop := (∀ handler ∈ s.handlers, handler = []) ∧ Undecided s.election

def Listed (c : Cluster L) (id : UInt32) : Prop := ∃ m ∈ c.members, m.id = id

structure Consistent (s : State L) : Prop where
  backup : s.cluster.role ≠ .primary → ¬Attaching s → s.cluster.links = ∅
  primary : s.cluster.role = .primary → Idle s →
    ∀ id, id ∈ s.cluster.links ↔ id ≠ s.cluster.self.id ∧ Listed s.cluster id

/-! ## What the threads must not do to each other -/

/-- `attach_replica` may put a link to this server into `links_`. -/
def Linkable (c : Cluster L) (id : UInt32) : Prop :=
  c.role = .primary ∧ id ≠ c.self.id ∧ Listed c id

/-- `remove_member` may remove it. -/
def Removable (c : Cluster L) (id : UInt32) : Prop := c.role = .primary → id ∉ c.links

/-- A link opens only while the server is primary and lists the member, which is
not itself; a failed attachment and `drop_link` remove a member only while no
link to it is there; and a `Membership` is not applied by a primary. -/
def TaskOrderly (c : Cluster L) : Task → Outcome L → Prop
  | .attach member _, .opened _ => Linkable c member.id
  | .abandon id, _ | .remove id, _ => Removable c id
  | .update _, _ => c.role ≠ .primary
  | _, _ => True

/-- Every thread keeps to that, and a primary gets no answer to a `Join` of its own. -/
def Orderly (s : State L) : Label L → Prop
  | .task k outcome =>
    match s.handlers[k]? with
    | some (task :: _) => TaskOrderly s.cluster task outcome
    | _ => True
  | .lead outcome =>
    match s.election with
    | .leading (member :: _) => TaskOrderly s.cluster (.attach member false) outcome
    | .forsaking id _ => TaskOrderly s.cluster (.abandon id) outcome
    | .telling (task :: _) => TaskOrderly s.cluster task outcome
    | _ => True
  | .joined .. => s.cluster.role ≠ .primary
  | _ => True

/-! ## The invariant -/

def Pending (s : State L) (id : UInt32) : Prop :=
  (∃ handler ∈ s.handlers, ∃ task ∈ handler, settles id task) ∨ awaits id s.election

structure Inv (s : State L) : Prop where
  backup : s.cluster.role ≠ .primary → s.cluster.links = ∅
  campaign : ∀ todo higherAlive, s.election = .asking todo higherAlive → s.cluster.role ≠ .primary
  listed : s.cluster.role = .primary → ∀ id ∈ s.cluster.links,
    id ≠ s.cluster.self.id ∧ Listed s.cluster id
  linked : s.cluster.role = .primary → ∀ id, id ≠ s.cluster.self.id → Listed s.cluster id →
    id ∈ s.cluster.links ∨ Pending s id

theorem not_awaits_of_undecided {phase : Phase} {id : UInt32} (undecided : Undecided phase) :
    ¬awaits id phase := by
  cases phase <;> first | exact undecided.elim | exact False.elim

theorem Inv.consistent {s : State L} (inv : Inv s) : Consistent s where
  backup role _ := inv.backup role
  primary role idle id := by
    refine ⟨inv.listed role id, fun ⟨other, listed⟩ => ?_⟩
    rcases inv.linked role id other listed with linked | ⟨handler, mem, task, ahead, -⟩ | waits
    · exact linked
    · rw [idle.1 handler mem] at ahead
      cases ahead
    · exact absurd waits (not_awaits_of_undecided idle.2)

/-! ## Steps -/

section Steps

variable {s s' : State L}

/-- A handler starts. -/
theorem Inv.arrive (inv : Inv s) (task : Task) : Inv (s.arrive task) where
  backup := inv.backup
  campaign := inv.campaign
  listed := inv.listed
  linked role id other listed := by
    refine (inv.linked role id other listed).imp_right (Or.imp_left ?_)
    rintro ⟨handler, mem, ahead⟩
    exact ⟨handler, List.mem_append_left _ mem, ahead⟩

theorem awaits_start {phase : Phase} {id : UInt32} : awaits id phase.start ↔ awaits id phase := by
  cases phase <;> exact Iff.rfl

theorem start_asking {phase : Phase} {todo : List ServerAddress} {higherAlive : Bool}
    (asking : phase.start = .asking todo higherAlive) : phase = .asking todo higherAlive := by
  cases phase <;> first | exact asking | cases asking

/-- `start_election`. -/
theorem Inv.start (inv : Inv s) : Inv { s with election := s.election.start } where
  backup := inv.backup
  campaign todo higherAlive asking := inv.campaign todo higherAlive (start_asking asking)
  listed := inv.listed
  linked role id other listed :=
    (inv.linked role id other listed).imp_right (Or.imp_right awaits_start.mpr)

/-- A server that becomes a backup, or stays one. -/
theorem Inv.demote {c : Cluster L} (role : c.role ≠ .primary) (unlinked : c.links = ∅) :
    Inv { s with cluster := c } where
  backup _ := unlinked
  campaign _ _ _ := role
  listed is := absurd is role
  linked is := absurd is role

/-- A change that concerns neither role, links nor members. -/
theorem Inv.congr {c : Cluster L} (inv : Inv s) (self : c.self = s.cluster.self)
    (role : c.role = s.cluster.role) (links : c.links = s.cluster.links)
    (members : c.members = s.cluster.members) : Inv { s with cluster := c } where
  backup := by
    dsimp only
    rw [role, links]
    exact inv.backup
  campaign := by
    dsimp only
    rw [role]
    exact inv.campaign
  listed := by
    dsimp only [Listed]
    rw [role, links, self, members]
    exact inv.listed
  linked := by
    dsimp only [Listed]
    rw [role, links, self, members]
    exact inv.linked

/-- A step of a thread on the primary: whoever is listed afterwards is linked,
pending, or was listed before and is looked after as before. -/
theorem Inv.move (inv : Inv s) (self : s'.cluster.self = s.cluster.self)
    (role : s'.cluster.role = s.cluster.role)
    (campaign : ∀ todo higherAlive, s'.election = .asking todo higherAlive →
      s.election = .asking todo higherAlive)
    (backup : s.cluster.role ≠ .primary → s'.cluster.links = ∅)
    (listed : s.cluster.role = .primary → ∀ id ∈ s'.cluster.links,
      id ≠ s.cluster.self.id ∧ Listed s'.cluster id)
    (linked : s.cluster.role = .primary → ∀ id, id ≠ s.cluster.self.id → Listed s'.cluster id →
      id ∈ s'.cluster.links ∨ Pending s' id ∨
        Listed s.cluster id ∧ (id ∈ s.cluster.links → id ∈ s'.cluster.links) ∧
          (Pending s id → Pending s' id)) : Inv s' where
  backup is := backup (role ▸ is)
  campaign todo higherAlive asking := role ▸ inv.campaign todo higherAlive (campaign _ _ asking)
  listed is := by
    rw [self]
    exact listed (role ▸ is)
  linked is id other present := by
    rw [self] at other
    rcases linked (role ▸ is) id other present with link | waits | ⟨before, link, waits⟩
    · exact .inl link
    · exact .inr waits
    · exact (inv.linked (role ▸ is) id other before).imp link waits

/-- One thread has replaced what was next for it; the others are where they were. -/
structure Replaces (s s' : State L) (task : Task) (next : List Task) : Prop where
  pending : ∀ id, ¬settles id task → Pending s id → Pending s' id
  next : ∀ id, ∀ after ∈ next, settles id after → Pending s' id
  campaign : ∀ todo higherAlive, s'.election = .asking todo higherAlive →
    s.election = .asking todo higherAlive

theorem replaces_task {k : Nat} {task : Task} {rest next : List Task} {c : Cluster L}
    (found : s.handlers[k]? = some (task :: rest)) :
    Replaces s { s with cluster := c, handlers := s.handlers.set k (next ++ rest) } task next := by
  obtain ⟨short, here⟩ := List.getElem?_eq_some_iff.mp found
  have new : next ++ rest ∈ s.handlers.set k (next ++ rest) := List.mem_set short _
  refine ⟨fun id unsettled => Or.imp_left ?_, fun id after mem settling => .inl ?_, fun _ _ => id⟩
  · rintro ⟨handler, mem, other, ahead, settling⟩
    obtain ⟨j, at_j⟩ := List.mem_iff_getElem?.mp mem
    by_cases same : k = j
    · subst same
      cases at_j.symm.trans found
      rcases List.mem_cons.mp ahead with rfl | later
      · exact absurd settling unsettled
      · exact ⟨_, new, other, List.mem_append_right _ later, settling⟩
    · refine ⟨handler, List.mem_iff_getElem?.mpr ⟨j, ?_⟩, other, ahead, settling⟩
      exact (List.getElem?_set_ne same).trans at_j
  · exact ⟨_, new, after, List.mem_append_left _ mem, settling⟩

theorem replaces_telling {task : Task} {rest next : List Task} {c : Cluster L}
    (telling : s.election = .telling (task :: rest)) :
    Replaces s { s with cluster := c, election := .telling (next ++ rest) } task next := by
  refine ⟨fun id unsettled => Or.imp_right fun waits => ?_, fun id after mem settling => .inr ?_,
    nofun⟩
  · rw [telling] at waits
    obtain ⟨other, ahead, settling⟩ := waits
    rcases List.mem_cons.mp ahead with rfl | later
    · exact absurd settling unsettled
    · exact ⟨other, List.mem_append_right _ later, settling⟩
  · exact ⟨after, List.mem_append_left _ mem, settling⟩

theorem listed_removeMember {c : Cluster L} {id other : UInt32} :
    Listed (c.removeMember other) id ↔ Listed c id ∧ id ≠ other := by
  constructor
  · rintro ⟨m, mem, rfl⟩
    exact ⟨⟨m, (Cluster.mem_removeMember.mp mem).1, rfl⟩, (Cluster.mem_removeMember.mp mem).2⟩
  · rintro ⟨⟨m, mem, rfl⟩, apart⟩
    exact ⟨m, Cluster.mem_removeMember.mpr ⟨mem, apart⟩, rfl⟩

theorem assignId_frame (c : Cluster L) (host : Bytes) (port : UInt16) :
    (c.assignId host port).1 = { c with lowestId := (c.assignId host port).1.lowestId } := by
  rw [Cluster.assignId]
  split <;> rfl

/-- A thread moves on and leaves the bookkeeping alone. -/
theorem Inv.keep {task : Task} {next : List Task} (inv : Inv s) (moved : Replaces s s' task next)
    (self : s'.cluster.self = s.cluster.self) (role : s'.cluster.role = s.cluster.role)
    (links : s'.cluster.links = s.cluster.links) (members : s'.cluster.members = s.cluster.members)
    (settled : ∀ id, settles id task → ∃ after ∈ next, settles id after) : Inv s' := by
  refine inv.move self role moved.campaign (fun is => ?_) (fun is => ?_)
    fun is id other present => ?_
  · exact links.trans (inv.backup is)
  · dsimp only [Listed]
    rw [links, members]
    exact inv.listed is
  · dsimp only [Listed] at present ⊢
    rw [members] at present
    rw [links]
    by_cases settling : settles id task
    · obtain ⟨after, mem, settling⟩ := settled id settling
      exact .inr (.inl (moved.next id after mem settling))
    · exact .inr (.inr ⟨present, fun link => link, moved.pending id settling⟩)

/-- `attach_replica` has put a link into `links_`. -/
theorem Inv.linkTo {id : UInt32} {link : L} (inv : Inv s) (linkable : Linkable s.cluster id)
    (cluster : s'.cluster = { s.cluster with links := s.cluster.links.insert id link })
    (campaign : ∀ todo higherAlive, s'.election = .asking todo higherAlive →
      s.election = .asking todo higherAlive)
    (waits : ∀ other, other ≠ id → Pending s other → Pending s' other) : Inv s' := by
  obtain ⟨role, apart, listed⟩ := linkable
  refine inv.move (by rw [cluster]) (by rw [cluster]) campaign (fun is => absurd role is)
    (fun is i mem => ?_) fun is i other present => ?_
  · rw [cluster] at mem ⊢
    rcases ExtTreeMap.mem_insert.mp mem with same | old
    · rw [Std.compare_eq_iff_eq] at same
      exact same ▸ ⟨apart, listed⟩
    · exact inv.listed is i old
  · rw [cluster] at present ⊢
    by_cases same : i = id
    · exact .inl (ExtTreeMap.mem_insert.mpr (.inl (Std.compare_eq_iff_eq.mpr same.symm)))
    · exact .inr (.inr ⟨present, fun old => ExtTreeMap.mem_insert.mpr (.inr old), waits i same⟩)

/-- `remove_member` has taken a server without a link. -/
theorem Inv.unlist {id : UInt32} (inv : Inv s) (removable : Removable s.cluster id)
    (cluster : s'.cluster = s.cluster.removeMember id)
    (campaign : ∀ todo higherAlive, s'.election = .asking todo higherAlive →
      s.election = .asking todo higherAlive)
    (waits : ∀ other, other ≠ id → Pending s other → Pending s' other) : Inv s' := by
  refine inv.move (by rw [cluster]; rfl) (by rw [cluster]; rfl) campaign
    (fun is => by rw [cluster]; exact inv.backup is) (fun is i link => ?_)
    fun is i other present => ?_
  · rw [cluster] at link ⊢
    obtain ⟨apart, listed⟩ := inv.listed is i link
    refine ⟨apart, listed_removeMember.mpr ⟨listed, ?_⟩⟩
    rintro rfl
    exact removable is link
  · rw [cluster] at present ⊢
    obtain ⟨listed, apart⟩ := listed_removeMember.mp present
    exact .inr (.inr ⟨listed, fun link => link, waits i apart⟩)

/-- The next critical section or call of a thread. -/
theorem Inv.task {task : Task} {outcome : Outcome L} (inv : Inv s)
    (orderly : TaskOrderly s.cluster task outcome)
    (cluster : s'.cluster = (stepTask s.cluster outcome task).1)
    (moved : Replaces s s' task (stepTask s.cluster outcome task).2) : Inv s' := by
  obtain ⟨c, election, handlers⟩ := s'
  obtain rfl : c = _ := cluster
  cases task with
  | assign host port =>
    dsimp only [stepTask] at moved ⊢
    revert moved
    split <;> intro moved
    · have frame := assignId_frame s.cluster host port
      refine inv.keep moved ?_ ?_ ?_ ?_ nofun
      all_goals
        dsimp only
        rw [frame]
    · exact inv.keep moved rfl rfl rfl rfl nofun
  | reassure candidate => exact inv.keep moved rfl rfl rfl rfl nofun
  | broadcast => exact inv.keep moved rfl rfl rfl rfl nofun
  | tell todo failed =>
    cases todo with
    | nil => exact inv.keep moved rfl rfl rfl rfl nofun
    | cons id todo => cases outcome <;> exact inv.keep moved rfl rfl rfl rfl nofun
  | welcome member joins =>
    refine inv.move rfl rfl moved.campaign inv.backup (fun is id link => ?_)
      fun is id other present => ?_
    · obtain ⟨apart, listed⟩ := inv.listed is id link
      exact ⟨apart, exists_id_upsert.mpr (.inr listed)⟩
    · rcases exists_id_upsert.mp present with rfl | listed
      · exact .inr (.inl (moved.next _ _ (List.mem_singleton_self _) rfl))
      · exact .inr (.inr ⟨listed, fun link => link, moved.pending id nofun⟩)
  | attach member joins =>
    have failed : ∀ id, settles id (.attach member joins) →
        ∃ after ∈ Task.abandon member.id :: if joins then [Task.broadcast] else [],
          settles id after := fun id settling => ⟨_, List.mem_cons_self, settling⟩
    cases outcome with
    | opened link =>
      exact inv.linkTo orderly rfl moved.campaign fun id apart => moved.pending id apart.symm
    | answered => exact inv.keep moved rfl rfl rfl rfl failed
    | failed => exact inv.keep moved rfl rfl rfl rfl failed
  | abandon id | remove id =>
    exact inv.unlist orderly rfl moved.campaign fun other apart => moved.pending other apart.symm
  | drop id =>
    dsimp only [stepTask] at moved ⊢
    revert moved
    split <;> intro moved
    · rename_i link
      refine inv.move rfl rfl moved.campaign (fun is => ?_) (fun is i mem => ?_)
        fun is i other present => ?_
      · rw [inv.backup is] at link
        exact (ExtTreeMap.not_mem_empty link).elim
      · exact inv.listed is i (ExtTreeMap.mem_of_mem_erase mem)
      · by_cases same : id = i
        · exact .inr (.inl (moved.next i _ List.mem_cons_self same))
        · refine .inr (.inr ⟨present, fun old => ?_, moved.pending i nofun⟩)
          exact ExtTreeMap.mem_erase.mpr ⟨fun is => same (Std.compare_eq_iff_eq.mp is), old⟩
    · exact inv.keep moved rfl rfl rfl rfl nofun
  | update members =>
    exact inv.move rfl rfl moved.campaign inv.backup (fun is => absurd is orderly)
      fun is => absurd is orderly

/-- `become_primary` moves on without a change. -/
theorem Inv.phase {phase : Phase} (inv : Inv s)
    (campaign : ∀ todo higherAlive, phase ≠ .asking todo higherAlive)
    (waits : ∀ id, awaits id s.election → awaits id phase) : Inv { s with election := phase } where
  backup := inv.backup
  campaign todo higherAlive asking := absurd asking (campaign todo higherAlive)
  listed := inv.listed
  linked role id other listed :=
    (inv.linked role id other listed).imp_right (Or.imp_right (waits id))

/-- The attachments of `become_primary`, and its broadcast. -/
theorem Inv.lead {outcome : Outcome L} (inv : Inv s) (orderly : Orderly s (.lead outcome))
    [DecidableEq L] (stepped : step s (.lead outcome) = some s') : Inv s' := by
  simp only [step] at stepped
  split at stepped
  · rename_i leading
    cases stepped
    refine inv.phase nofun fun id waits => ?_
    rw [leading] at waits
    obtain ⟨m, mem, -⟩ := waits
    cases mem
  · rename_i member todo leading
    rw [Orderly, leading] at orderly
    have kept : Inv { s with election := .forsaking member.id todo } := by
      refine inv.phase nofun fun id waits => ?_
      rw [leading] at waits
      obtain ⟨m, mem, same⟩ := waits
      rcases List.mem_cons.mp mem with rfl | later
      · exact .inl same
      · exact .inr ⟨m, later, same⟩
    cases outcome with
    | opened link =>
      cases stepped
      refine inv.linkTo orderly rfl nofun fun id apart => Or.imp_right fun waits => ?_
      rw [leading] at waits
      obtain ⟨m, mem, same⟩ := waits
      rcases List.mem_cons.mp mem with rfl | later
      · exact absurd same.symm apart
      · exact ⟨m, later, same⟩
    | answered =>
      cases stepped
      exact kept
    | failed =>
      cases stepped
      exact kept
  · rename_i id todo forsaking
    rw [Orderly, forsaking] at orderly
    cases stepped
    refine inv.unlist orderly rfl nofun fun i apart => Or.imp_right fun waits => ?_
    rw [forsaking] at waits
    exact waits.resolve_left apart.symm
  · rename_i telling
    cases stepped
    refine inv.phase nofun fun id waits => ?_
    rw [telling] at waits
    obtain ⟨task, mem, -⟩ := waits
    cases mem
  · rename_i task rest telling
    rw [Orderly, telling] at orderly
    cases stepped
    exact inv.task orderly rfl (replaces_telling telling)
  · cases stepped

theorem Inv.step [DecidableEq L] {label : Label L} (inv : Inv s) (orderly : Orderly s label)
    (stepped : step s label = some s') : Inv s' := by
  cases label with
  | startAsPrimary =>
    simp only [Handlers.step] at stepped
    split at stepped <;> cases stepped
    rename_i fresh
    have backup : s.cluster.role ≠ .primary := by
      rw [fresh.1]
      exact nofun
    have unlinked : s.cluster.links = ∅ := inv.backup backup
    refine ⟨fun is => (is rfl).elim, fun todo higherAlive asking => ?_, fun _ id link => ?_,
      fun _ id other listed => ?_⟩
    · cases fresh.2.symm.trans asking
    · change id ∈ s.cluster.links at link
      rw [unlinked] at link
      exact (ExtTreeMap.not_mem_empty link).elim
    · obtain ⟨m, mem, rfl⟩ := listed
      exact absurd (congrArg ServerAddress.id (List.mem_singleton.mp mem)) other
  | joined id primaryId host port =>
    simp only [Handlers.step] at stepped
    split at stepped <;> cases stepped
    exact .demote nofun (inv.backup orderly)
  | handleJoin host port =>
    cases stepped
    exact inv.arrive _
  | handleElection candidate =>
    simp only [Handlers.step] at stepped
    split at stepped <;> cases stepped
    · exact inv.arrive _
    · exact inv.start
  | coordinator leader =>
    simp only [Handlers.step] at stepped
    split at stepped <;> cases stepped
    · exact inv.start
    · refine .demote nofun ?_
      dsimp only [Cluster.coordinator]
      split
      · rfl
      · rename_i role
        exact inv.backup role
  | replicaAttach conn primary members =>
    cases stepped
    refine .demote nofun ?_
    dsimp only [Cluster.replicaAttach]
    split
    · rfl
    · rename_i role
      exact inv.backup role
  | manifestBuilt =>
    cases stepped
    exact inv.congr rfl rfl rfl rfl
  | membership conn members =>
    simp only [Handlers.step] at stepped
    split at stepped <;> cases stepped
    · exact inv.arrive _
    · exact inv
  | linkClosed conn =>
    simp only [Handlers.step] at stepped
    split at stepped <;> cases stepped
    · exact (inv.congr (c := { s.cluster with primaryLink := none }) rfl rfl rfl rfl).start
    · exact inv
  | dropLink id =>
    cases stepped
    exact inv.arrive _
  | startElection =>
    cases stepped
    exact inv.start
  | task k outcome =>
    simp only [Handlers.step] at stepped
    split at stepped
    · rename_i task rest found
      rw [Orderly, found] at orderly
      cases stepped
      exact inv.task orderly rfl (replaces_task found)
    · cases stepped
  | startRound =>
    simp only [Handlers.step] at stepped
    split at stepped
    swap
    · cases stepped
    rename_i starting
    split at stepped <;> cases stepped
    · refine inv.move rfl rfl nofun inv.backup inv.listed fun is id other present => ?_
      refine .inr (.inr ⟨present, fun link => link, Or.imp_right fun waits => ?_⟩)
      rw [starting] at waits
      exact waits
    · rename_i role
      exact ⟨inv.backup, fun _ _ _ => role, fun is => absurd is role, fun is => absurd is role⟩
  | ask answered =>
    simp only [Handlers.step] at stepped
    split at stepped <;> cases stepped
    rename_i member todo higherAlive asking
    have role := inv.campaign _ _ asking
    exact ⟨inv.backup, fun _ _ _ => role, fun is => absurd is role, fun is => absurd is role⟩
  | decide =>
    simp only [Handlers.step] at stepped
    split at stepped <;> cases stepped
    · rename_i asking
      have role := inv.campaign _ _ asking
      exact ⟨inv.backup, nofun, fun is => absurd is role, fun is => absurd is role⟩
    · rename_i asking
      have unlinked : s.cluster.links = ∅ := inv.backup (inv.campaign _ _ asking)
      refine ⟨fun is => (is rfl).elim, nofun, fun _ id link => ?_, fun _ id other listed => ?_⟩
      · change id ∈ s.cluster.links at link
        rw [unlinked] at link
        exact (ExtTreeMap.not_mem_empty link).elim
      · obtain ⟨m, mem, rfl⟩ := listed
        refine .inr (.inr ⟨m, List.mem_filter.mpr ⟨mem, ?_⟩, rfl⟩)
        exact decide_eq_true other
  | wake =>
    simp only [Handlers.step] at stepped
    split at stepped <;> cases stepped
    rename_i waiting
    refine inv.move rfl rfl (fun todo higherAlive asking => ?_) inv.backup inv.listed
      fun is id other present => ?_
    · dsimp only at asking
      split at asking <;> cases asking
    · refine .inr (.inr ⟨present, fun link => link, Or.imp_right fun waits => ?_⟩)
      rw [waiting] at waits
      cases waits
  | lead opened => exact inv.lead orderly stepped

end Steps

/-! ## Runs -/

theorem inv_init (host : Bytes) (port : UInt16) : Inv (L := L) (init host port) :=
  ⟨fun _ => rfl, nofun, nofun, nofun⟩

/-- A primary at rest is linked to exactly its members, and a server that is not
primary to nobody. -/
theorem consistent_of_run [DecidableEq L] {host : Bytes} {port : UInt16} {labels : List (Label L)}
    {s : State L} (orderly : Meets step Orderly (init host port) labels)
    (ran : run step (init host port) labels = some s) : Consistent s :=
  (run_invariant (fun _ _ _ inv => inv.step) (inv_init host port) orderly ran).consistent

section Examples

/-- A primary that serves one backup. -/
def serving : List (Label Nat) :=
  [.startAsPrimary, .handleJoin (bytes "h") 2, .task 0 .answered, .task 0 .answered,
    .task 0 (.opened 0), .task 0 .answered, .task 0 .answered, .task 0 .answered]

/-- A server joins from the backup's address and cannot be attached; the backup
answers the broadcast that follows. -/
def rejoined : List (Label Nat) :=
  [.handleJoin (bytes "h") 2, .task 1 .answered, .task 1 .answered, .task 1 .failed,
    .task 1 .answered, .task 1 .answered, .task 1 .answered, .task 1 .answered]

/-- The backup is no member any more, and its link stays. -/
theorem link_without_member :
    ¬∀ (host : Bytes) (port : UInt16) (labels : List (Label Nat)) (s : State Nat),
      run step (init host port) labels = some s → Consistent s := by
  intro claim
  obtain ⟨s, ran, role, handlers, election, link, members⟩ : ∃ s,
      run step (init (bytes "h") 1) (serving ++ rejoined) = some s ∧ s.cluster.role = .primary ∧
      s.handlers = [[], []] ∧ s.election = .idle ∧ 999 ∈ s.cluster.links ∧
        s.cluster.members = [⟨1000, bytes "h", 1⟩] :=
    ⟨_, rfl, rfl, rfl, rfl, by decide +kernel, by decide +kernel⟩
  have idle : Idle s := by
    refine ⟨fun handler mem => ?_, by rw [election]; trivial⟩
    rw [handlers] at mem
    simpa using mem
  obtain ⟨-, m, mem, same⟩ := ((claim _ _ _ s ran).primary role idle 999).mp link
  rw [members] at mem
  rw [List.mem_singleton.mp mem] at same
  exact absurd same (by decide)

theorem consistent_serving :
    ∃ s, run step (init (bytes "h") 1) serving = some s ∧ s.cluster.role = .primary ∧
      999 ∈ s.cluster.links ∧ Consistent s := by
  obtain ⟨s, ran, role, link⟩ : ∃ s, run step (init (bytes "h") 1) serving = some s ∧
      s.cluster.role = .primary ∧ 999 ∈ s.cluster.links := ⟨_, rfl, rfl, by decide +kernel⟩
  refine ⟨s, ran, role, link, consistent_of_run ?_ ran⟩
  refine ⟨trivial, trivial, trivial, trivial, ?_, trivial, trivial, trivial, trivial⟩
  exact ⟨rfl, by decide +kernel, ⟨999, bytes "h", 2⟩, by decide +kernel, rfl⟩

end Examples

end SisOp.Bookkeeping
