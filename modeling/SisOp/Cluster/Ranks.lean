import SisOp.Cluster.Ids

/-!
# Whom a backup follows

Which server a backup takes for its primary, over the runs of a whole cluster.
Of the three ways to learn it only `handle_coordinator` compares the ranks.

Main result: `follows_higher`, every backup follows a server with a higher id in
every run in which a `ReplicaAttach` is received from a higher server only, and
a server that gets its old id back has one below the primary's.
-/

namespace SisOp.Ranks

open Lib Std Function Ids

/-- A backup that knows its primary has a lower id. -/
def Follows (c : Cluster Address) : Prop :=
  c.role = .backup → c.primaryKnown = true → c.self.id < c.primary.id

/-- A `ReplicaAttach` is received from a higher server only; who follows a `Coordinator`
has the id it compared, and the leader another. An id that is given back is below the
primary's. No server without an id takes over, or is taken back by a primary. -/
def Ranked (s : State) : Label → Prop
  | .choose p a => ∀ server, s.server p = some server →
      ∀ m ∈ server.cluster.members, addressOf m = a → m.id < server.cluster.self.id
  | .receive k => ∀ e server, s.sent[k]? = some e → s.server e.receiver = some server →
      match e.content with
      | .attach primary _ => server.cluster.self.id < primary.id
      | .election candidate => server.cluster.role = .primary → candidate.id ≠ 0
      | _ => True
  | .perform k => ∀ a me leader server, s.tasks[k]? = some (a, .follow me leader) →
      s.server a = some server → server.cluster.self.id = me ∧ leader.id ≠ me
  | .takeOver a => ∀ server, s.server a = some server → server.cluster.self.id ≠ 0
  | _ => True

/-- What holds of every running server. -/
structure Good (c : Cluster Address) : Prop where
  follows : Follows c
  unlinked : c.role = .primary → c.primaryLink = none
  positive : c.role = .primary → 0 < c.lowestId
  lowest : c.role = .primary → c.lowestId ≤ c.self.id

/-- The servers are `Good`, they know no member without an id, the ids that `handle_join`
chose and answered are below the primary's, and who is about to follow a leader was not
above it. -/
structure Inv (s : State) : Prop where
  sound : s.Sound fun m => m.id ≠ 0
  servers : ∀ a server, s.server a = some server → Good server.cluster
  offers : ∀ o ∈ s.joining, o.id ≠ 0 ∧ ∃ server, s.server o.granter = some server ∧
    o.id < server.cluster.self.id
  answers : ∀ e ∈ s.sent, ∀ id primaryId, e.content = .joinOk id primaryId → id < primaryId
  following : ∀ task ∈ s.tasks, ∀ me leader, task.2 = .follow me leader → me ≤ leader.id

/-! ## One server -/

section Server

variable {c : Cluster Address} {m : ServerAddress}

theorem Good.of_backup (role : c.role = .backup) (below : c.self.id < c.primary.id) : Good c := by
  refine ⟨fun _ _ => below, fun is => ?_, fun is => ?_, fun is => ?_⟩
  all_goals
    rw [role] at is
    cases is

theorem Good.addMember (good : Good c) (named : 0 < m.id) : Good (c.addMember m) := by
  have lowest : c.role = .primary → (c.addMember m).lowestId = min c.lowestId m.id := by
    intro role
    have known : c.lowestId ≠ 0 := (UInt32.ne_of_lt (good.positive role)).symm
    dsimp only [Cluster.addMember]
    rw [if_neg known]
  refine ⟨good.follows, good.unlinked, fun role => ?_, fun role => ?_⟩
  · rw [lowest role, ← one_le_iff_pos, Std.le_min_iff, one_le_iff_pos, one_le_iff_pos]
    exact ⟨good.positive role, named⟩
  · rw [lowest role]
    exact UInt32.le_trans Std.min_le_left (good.lowest role)

/-- The lists do not matter. -/
theorem Good.congr {c' : Cluster Address} (good : Good c) (self : c'.self = c.self)
    (role : c'.role = c.role) (primary : c'.primary = c.primary)
    (known : c'.primaryKnown = c.primaryKnown) (link : c'.primaryLink = c.primaryLink)
    (lowest : c'.lowestId = c.lowestId) : Good c' := by
  refine ⟨?_, ?_, ?_, ?_⟩
  · rw [Follows, self, role, primary, known]
    exact good.follows
  · rw [role, link]
    exact good.unlinked
  · rw [role, lowest]
    exact good.positive
  · rw [role, lowest, self]
    exact good.lowest

/-- The id a primary gives an address: that of a member, or one below its own. -/
theorem Good.assignId {a : Address} (good : Good c) (members : ∀ m ∈ c.members, m.id ≠ 0)
    (role : c.role = .primary) :
    (∃ m ∈ c.members, addressOf m = a ∧ c.assignId a.1 a.2 = (c, m.id)) ∨
      ∃ lowest, 0 < lowest ∧ lowest ≤ c.self.id ∧
        c.assignId a.1 a.2 = ({ c with lowestId := lowest }, lowest - 1) := by
  by_cases present : ∃ m ∈ c.members, m.host = a.1 ∧ m.port = a.2
  · obtain ⟨m, mem, here, assigned⟩ := Cluster.assignId_of_member present members
    exact .inl ⟨m, mem, addressOf_eq.mpr here, assigned⟩
  · refine .inr ⟨c.members.foldl (fun lowest m => min lowest m.id) c.lowestId, ?_, ?_, ?_⟩
    · refine one_le_iff_pos.mp ((le_foldl_min _ _ _).mpr ⟨?_, fun m mem => ?_⟩)
      · exact one_le_iff_pos.mpr (good.positive role)
      · exact one_le_iff_pos.mpr (UInt32.pos_iff_ne_zero.mpr (members m mem))
    · exact UInt32.le_trans (foldl_min_le_init _ _) (good.lowest role)
    · exact Cluster.assignId_of_new fun m mem here => present ⟨m, mem, here⟩

/-- What a server makes of a message from a rightful sender. -/
theorem Good.handle {sender : Address} {content : Sent} (good : Good c)
    (answer : ∀ id primaryId, content = .joinOk id primaryId → id < primaryId)
    (ranked : ∀ primary members, content = .attach primary members → c.self.id < primary.id) :
    Good (handle c sender content).1 := by
  cases content with
  | joinOk id primaryId =>
    dsimp only [Ids.handle]
    split
    · exact .of_backup rfl (answer id primaryId rfl)
    · exact good
  | attach primary members => exact .of_backup rfl (ranked primary members rfl)
  | membership | coordinator | election => exact good

/-- What a thread does in its next section. -/
theorem Good.perform {task : Task} (good : Good c) (waiting : task.Sound (·.id ≠ 0) c.self.id)
    (ranked : ∀ me leader, task = .follow me leader → c.self.id < leader.id) :
    Good (perform c task).1 := by
  cases task with
  | adopt candidate => exact good.addMember (UInt32.pos_iff_ne_zero.mpr waiting.2)
  | follow me leader => exact .of_backup rfl (ranked me leader rfl)
  | renew | remove => exact good.congr rfl rfl rfl rfl rfl rfl
  | announce | reassure | broadcast | tell => exact good

theorem Good.becomePrimary (named : c.self.id ≠ 0) (members : ∀ m ∈ c.members, m.id ≠ 0) :
    Good c.becomePrimary.1 := by
  refine ⟨nofun, fun _ => rfl, fun _ => ?_, fun _ => foldl_min_le_init _ _⟩
  refine one_le_iff_pos.mp ((le_foldl_min _ _ _).mpr
    ⟨one_le_iff_pos.mpr (UInt32.pos_iff_ne_zero.mpr named), fun m mem => ?_⟩)
  exact one_le_iff_pos.mpr
    (UInt32.pos_iff_ne_zero.mpr (members m (Cluster.mem_of_mem_becomePrimary mem)))

end Server

/-! ## The cluster -/

section Steps

variable {s s' : State} {a : Address}

/-- One server changes. -/
theorem Inv.put {server : Server} (inv : Inv s) (good : Good server.cluster)
    (same : s'.server = (s.put a server).server) :
    ∀ b other, s'.server b = some other → Good other.cluster := by
  intro b other running
  rcases put_cases same running with ⟨-, rfl⟩ | ⟨-, was⟩
  · exact good
  · exact inv.servers b other was

/-- The id that is chosen is below the primary's. -/
theorem Inv.chooses {p : Address} {c : Cluster Address} {since : Nat} (inv : Inv s)
    (ranked : Ranked s (.choose p a)) (running : s.server p = some ⟨c, since⟩)
    (leads : c.role = .primary) :
    Good (c.assignId a.1 a.2).1 ∧ (c.assignId a.1 a.2).2 < c.self.id := by
  have good : Good c := inv.servers p _ running
  have known := inv.sound.servers p _ running
  rcases good.assignId (known.members (known.ranked leads)) leads with
    ⟨m, mem, here, given⟩ | ⟨lowest, positive, le, given⟩
  · rw [given]
    exact ⟨good, ranked _ running m mem here⟩
  · rw [given]
    refine ⟨⟨good.follows, good.unlinked, fun _ => positive, fun _ => le⟩, ?_⟩
    exact UInt32.lt_of_lt_of_le (pred_lt positive) le

/-- A granter keeps its id. -/
theorem Inv.offers_step {label : Label} (inv : Inv s) (ranked : Ranked s label)
    (stepped : step s label = some s') :
    ∀ o ∈ s'.joining, o.id ≠ 0 ∧ ∃ server, s'.server o.granter = some server ∧
      o.id < server.cluster.self.id := by
  have kept : ∀ b server (id : UInt32), s.server b = some server →
      id < server.cluster.self.id → label ≠ .crash b →
      ∃ server', s'.server b = some server' ∧ id < server'.cluster.self.id := by
    intro b server id running under alive
    have named : server.cluster.self.id ≠ 0 :=
      UInt32.pos_iff_ne_zero.mp (UInt32.lt_of_le_of_lt UInt32.zero_le under)
    obtain ⟨server', running', same⟩ := stays_step stepped running named alive
    exact ⟨server', running', same ▸ under⟩
  intro o mem
  rcases joining_step stepped mem with ⟨old, alive⟩ |
    ⟨p, a, c, since, rfl, running, leads, left, rfl⟩
  · obtain ⟨named, server, running, under⟩ := inv.offers o old
    exact ⟨named, kept _ server _ running under alive⟩
  · exact ⟨left, kept p _ _ running (inv.chooses ranked running leads).2 nofun⟩

theorem Inv.sound_step {label : Label} (inv : Inv s) (ranked : Ranked s label)
    (stepped : step s label = some s') : s'.Sound fun m => m.id ≠ 0 := by
  refine inv.sound.step ?_ stepped
  cases label with
  | join k =>
    intro o offered
    obtain ⟨named, server, running, under⟩ := inv.offers o (List.mem_of_getElem? offered)
    exact ⟨named, named, server, running,
      UInt32.pos_iff_ne_zero.mp (UInt32.lt_of_le_of_lt UInt32.zero_le under)⟩
  | receive k => exact fun _ _ _ _ waiting running => ranked _ _ waiting running
  | takeOver a => exact ranked
  | start | choose | attach | attached | perform | announce | inform | suspect | drop | crash |
      elect => trivial

/-- Only `handle_join` answers with an id. -/
theorem Inv.answers_step {label : Label} (inv : Inv s) (stepped : step s label = some s') :
    ∀ e ∈ s'.sent, ∀ id primaryId, e.content = .joinOk id primaryId → id < primaryId := by
  intro e mem id primaryId reply
  have sent {e' : Envelope} (mem : e ∈ s.sent ++ [e']) (other : e'.content ≠ e.content) :
      id < primaryId := by
    rcases List.mem_append.mp mem with old | new
    · exact inv.answers e old id primaryId reply
    · exact absurd (List.mem_singleton.mp new ▸ rfl) other
  cases Stepped.of_step stepped with
  | @join k o c since offered running =>
    rcases List.mem_append.mp mem with old | new
    · exact inv.answers e old id primaryId reply
    · cases List.mem_singleton.mp new
      cases reply
      obtain ⟨-, server, found, under⟩ := inv.offers o (List.mem_of_getElem? offered)
      cases running.symm.trans found
      exact under
  | attach | announce | inform | suspect =>
    refine sent mem ?_
    rw [reply]
    nofun
  | unheard | heard => exact inv.answers e (List.mem_of_mem_eraseIdx mem) id primaryId reply
  | start | refused | chosen | attached | perform | drop | crash | elect | takeOver =>
    exact inv.answers e mem id primaryId reply

/-- Who is to follow a leader has compared the ids. -/
theorem Inv.following_step {label : Label} (inv : Inv s) (stepped : step s label = some s') :
    ∀ task ∈ s'.tasks, ∀ me leader, task.2 = .follow me leader → me ≤ leader.id := by
  intro task mem me leader follow
  have left {a : Address} {before : List (Address × Task)} {added : List Task}
      (mem : task ∈ before ++ added.map fun task => (a, task)) (known : ∀ t ∈ before, t ∈ s.tasks)
      (ranked : ∀ t ∈ added, t = .follow me leader → me ≤ leader.id) : me ≤ leader.id := by
    rcases List.mem_append.mp mem with old | new
    · exact inv.following task (known task old) me leader follow
    · obtain ⟨t, among, rfl⟩ := List.mem_map.mp new
      exact ranked t among follow
  cases Stepped.of_step stepped with
  | attached | drop => exact left mem (fun _ => id) nofun
  | @perform k a t c since waiting running =>
    refine left mem (fun _ => List.mem_of_mem_eraseIdx) fun next mem => ?_
    cases t with
    | reassure candidate =>
      dsimp only [Ids.perform] at mem
      split at mem
      · cases mem
      · cases List.mem_singleton.mp mem
        nofun
    | remove | broadcast =>
      cases List.mem_singleton.mp mem
      nofun
    | announce | adopt | follow | renew | tell => cases mem
  | @heard k sender receiver content c since waiting running =>
    refine left mem (fun _ => id) fun next mem same => ?_
    subst same
    cases content with
    | coordinator =>
      dsimp only [Ids.handle] at mem
      split at mem
      · cases mem
      · cases List.mem_singleton.mp mem
        exact UInt32.not_lt.mp ‹_›
    | membership =>
      dsimp only [Ids.handle] at mem
      split at mem
      · cases List.mem_singleton.mp mem
      · cases mem
    | election =>
      dsimp only [Ids.handle] at mem
      split at mem
      · rcases List.mem_cons.mp mem with same | mem
        · cases same
        · cases List.mem_singleton.mp mem
      · cases mem
    | joinOk | attach => cases mem
  | takeOver =>
    refine left mem (fun _ => id) fun next mem same => ?_
    obtain ⟨m, -, rfl⟩ := List.mem_map.mp mem
    cases same
  | crash => exact inv.following task (List.mem_filter.mp mem).1 me leader follow
  | start | refused | chosen | join | attach | announce | inform | suspect | unheard | elect =>
    exact inv.following task mem me leader follow

theorem Inv.servers_step {label : Label} (inv : Inv s) (ranked : Ranked s label)
    (stepped : step s label = some s') :
    ∀ a server, s'.server a = some server → Good server.cluster := by
  have kind := Stepped.of_step stepped
  cases kind with
  | refused running leads out => exact inv.put (inv.chooses ranked running leads).1 rfl
  | chosen running leads left => exact inv.put (inv.chooses ranked running leads).1 rfl
  | @join k o c since offered running =>
    obtain ⟨named, -⟩ := inv.offers o (List.mem_of_getElem? offered)
    exact inv.put ((inv.servers _ _ running).addMember (UInt32.pos_iff_ne_zero.mpr named)) rfl
  | @start a absent =>
    have joining : Good (Cluster.init a.1 a.2 : Cluster Address) := ⟨nofun, nofun, nofun, nofun⟩
    exact inv.put joining rfl
  | @attached k ok p member c since calling running =>
    have good : Good c := inv.servers _ _ running
    cases ok with
    | true =>
      have linked : Good (c.setLink member.id (addressOf member)) :=
        good.congr rfl rfl rfl rfl rfl rfl
      exact inv.put linked rfl
    | false =>
      have removed : Good (c.removeMember member.id) := good.congr rfl rfl rfl rfl rfl rfl
      exact inv.put removed rfl
  | @perform k a task c since waiting running =>
    obtain ⟨server, found, sound⟩ := inv.sound.tasks _ (List.mem_of_getElem? waiting)
    cases running.symm.trans found
    refine inv.put ((inv.servers a _ running).perform sound fun me leader same => ?_) rfl
    subst same
    obtain ⟨own, other⟩ := ranked a me leader _ waiting running
    rw [own]
    exact UInt32.lt_of_le_of_ne (inv.following _ (List.mem_of_getElem? waiting) me leader rfl)
      other.symm
  | attach | announce | inform | suspect | unheard => exact inv.servers
  | @heard k sender receiver content c since waiting running =>
    have good : Good (handle c sender content).1 := by
      refine (inv.servers receiver _ running).handle
        (inv.answers _ (List.mem_of_getElem? waiting)) fun primary members same => ?_
      subst same
      exact ranked _ _ waiting running
    exact inv.put good rfl
  | @drop p id c since running linked =>
    have cut : Good (c.takeLink id) := (inv.servers p _ running).congr rfl rfl rfl rfl rfl rfl
    exact inv.put cut rfl
  | crash => exact fun b server running => inv.servers b server (crash_cases running).2
  | @elect a c since running backup =>
    have following : Good c.startRound.1 := ⟨fun _ => nofun, fun is => absurd is backup,
      fun is => absurd is backup, fun is => absurd is backup⟩
    exact inv.put following rfl
  | @takeOver a c since running backup =>
    have named := ranked _ running
    have known := inv.sound.servers a _ running
    exact inv.put (.becomePrimary named (known.members named)) rfl

theorem Inv.step {label : Label} (inv : Inv s) (ranked : Ranked s label)
    (stepped : step s label = some s') : Inv s' :=
  ⟨inv.sound_step ranked stepped, inv.servers_step ranked stepped,
    inv.offers_step ranked stepped, inv.answers_step stepped, inv.following_step stepped⟩

end Steps

/-! ## The whole history -/

theorem inv_init (a : Address) : Inv (init a) := by
  refine ⟨(Ids.inv_init a).sound.mono fun m recorded => ?_, fun b server running => ?_, nofun,
    nofun, nofun⟩
  · exact UInt32.pos_iff_ne_zero.mp (recorded.positive (Ids.inv_init a).positive)
  · dsimp only [init] at running
    rcases update_cases running with ⟨-, ⟨⟩⟩ | ⟨-, ⟨⟩⟩
    exact ⟨nofun, fun _ => rfl, fun _ => show (0 : UInt32) < 1000 by decide,
      fun _ => UInt32.le_refl _⟩

/-- No backup follows a lower server, in every run in which a `ReplicaAttach` is
received from a higher server only and ids given back are below the primary's. -/
theorem follows_higher {a : Address} {labels : List Label} {s : State}
    (ranked : Meets step Ranked (init a) labels) (ran : run step (init a) labels = some s)
    {b : Address} {server : Server} (running : s.server b = some server) :
    Follows server.cluster :=
  ((run_invariant (fun _ _ _ inv => inv.step) (inv_init a) ranked ran).servers b server
    running).follows

section Examples

/-- Two servers join and are attached. -/
def joined : List Label :=
  [.start (port 1), .choose (port 0) (port 1), .join 0, .receive 0, .attach 0, .receive 0,
    .attached 0 true, .start (port 2), .choose (port 0) (port 2), .join 0, .receive 0, .attach 0,
    .receive 0, .attached 0 true]

/-- Nobody above it answers the last server, which takes over and attaches the
one before it. All ids are distinct. -/
theorem follows_lower :
    ¬∀ (a : Address) (labels : List Label) (s : State), run step (init a) labels = some s →
      Descending s → ∀ b server, s.server b = some server → Follows server.cluster := by
  intro claim
  obtain ⟨s, ran, server, running, role, known, self, primary⟩ :
      ∃ s, run step (init (port 0))
          (joined ++ [.elect (port 2), .takeOver (port 2), .attach 0, .receive 0]) = some s ∧
        ∃ server, s.server (port 1) = some server ∧ server.cluster.role = .backup ∧
          server.cluster.primaryKnown = true ∧ server.cluster.self.id = 999 ∧
            server.cluster.primary.id = 998 :=
    ⟨_, rfl, _, rfl, by decide +kernel, by decide +kernel, by decide +kernel, by decide +kernel⟩
  have informed : Meets step Informed (init (port 0))
      (joined ++ [.elect (port 2), .takeOver (port 2), .attach 0, .receive 0]) := by
    refine ⟨trivial, ⟨rfl, ?_⟩, trivial, ?_, trivial, ?_, trivial, trivial, ⟨rfl, ?_⟩, trivial, ?_,
      trivial, ?_, trivial, trivial, ?_, trivial, ?_, trivial⟩
    · rintro _ ⟨⟩ - g mem
      cases mem
    · rintro _ _ _ _ ⟨⟩
    · rintro _ _ _ _ ⟨⟩
    · rintro _ ⟨⟩ -
      decide +kernel
    · rintro _ _ _ _ ⟨⟩
    · rintro _ _ _ _ ⟨⟩
    · rintro _ ⟨⟩
      exact ⟨by decide +kernel, fun g first => .inl (by cases first; rfl)⟩
    · rintro _ _ _ _ ⟨⟩
  have descending := (Ids.inv_run informed ran).toDescending
  have follows := claim _ _ s ran descending _ server running role known
  rw [self, primary] at follows
  exact absurd follows (by decide)

/-- The second server attached follows the first. -/
theorem follows_higher_joined :
    ∃ s server, run step (init (port 0)) joined = some s ∧ s.server (port 2) = some server ∧
      server.cluster.role = .backup ∧ Follows server.cluster := by
  obtain ⟨s, ran, server, running, role⟩ : ∃ s, run step (init (port 0)) joined = some s ∧
      ∃ server, s.server (port 2) = some server ∧ server.cluster.role = .backup :=
    ⟨_, rfl, _, rfl, by decide +kernel⟩
  refine ⟨s, server, ran, running, role, follows_higher ?_ ran running⟩
  refine ⟨trivial, ?_, trivial, ?_, trivial, ?_, trivial, trivial, ?_, trivial, ?_, trivial, ?_,
    trivial, trivial⟩
  · rintro _ ⟨⟩
    decide +kernel
  · rintro _ _ ⟨⟩ ⟨⟩
    trivial
  · rintro _ _ ⟨⟩ ⟨⟩
    decide +kernel
  · rintro _ ⟨⟩
    decide +kernel
  · rintro _ _ ⟨⟩ ⟨⟩
    trivial
  · rintro _ _ ⟨⟩ ⟨⟩
    decide +kernel

end Examples

end SisOp.Ranks
