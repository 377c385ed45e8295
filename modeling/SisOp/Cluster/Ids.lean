import SisOp.Cluster.State
import SisOp.Lib.Run
import Mathlib.Logic.Function.Basic

/-!
# The ids of a cluster over its whole history

Servers start, join, lose their links, crash and take over, from a single server
that ran `start_as_primary`. Messages between servers wait in `sent` until they
are received, in any order, or for ever: a server whose `JoinOk` does not arrive has
no id. Other threads may come between two sections of one function: `handle_join`
chooses an id in the first and records the member in the second, as in `SisOp.Join`,
and what the threads of the other handlers have left to do waits in `tasks`. A round
of an election starts and ends in a takeover at any time, also while the primary is
alive: any call may fail.

Main result: `ids_descend`, in every run in which servers join one at a time and
those that take over and hand out ids know the lowest one handed out so far.
-/

namespace SisOp.Ids

open Lib Std Function

/-- Host and port, which name a server process while it runs. -/
abbrev Address := Bytes × UInt16

def addressOf (m : ServerAddress) : Address := (m.host, m.port)

/-- An id that `handle_join` gave to an address that was no member's. -/
structure Grant where
  id : UInt32
  address : Address
  granter : Address
  deriving DecidableEq

/-- An id that a `handle_join` of `granter` has chosen and not recorded; `fresh` when
no member had the address. -/
structure Offer where
  granter : Address
  address : Address
  id : UInt32
  fresh : Bool
  deriving DecidableEq

/-- A running server, and how many ids had been handed out in the cluster when
it last became primary. -/
structure Server where
  cluster : Cluster Address
  since : Nat

inductive Sent where
  | joinOk (id primaryId : UInt32)
  | attach (primary : ServerAddress) (members : List ServerAddress)
  | membership (members : List ServerAddress)
  | coordinator (leader : ServerAddress)
  | election (candidate : ServerAddress)

/-- A message with the addresses it goes between. -/
structure Envelope where
  sender : Address
  receiver : Address
  content : Sent

/-- What a thread has left to do after a section: the calls of `announce_to`; the check
for a link and `add_member` of `handle_election`; `handle_coordinator` after it compared
its id `me`; `Membership` after it looked at the link; `drop_link` after it took the link;
`broadcast_membership`, and its calls once it has read the list. -/
inductive Task where
  | announce (member : ServerAddress)
  | reassure (candidate : ServerAddress)
  | adopt (candidate : ServerAddress)
  | follow (me : UInt32) (leader : ServerAddress)
  | renew (members : List ServerAddress)
  | remove (id : UInt32)
  | broadcast
  | tell (members : List ServerAddress)

/-- `joining` holds the `handle_join` calls between their two sections, `attaching`
the `attach_replica` calls that have not ended, with the servers they and the `tasks`
run on; `grants` only records, newest first. -/
structure State where
  server : Address → Option Server
  joining : List Offer
  attaching : List (Address × ServerAddress)
  tasks : List (Address × Task)
  sent : List Envelope
  grants : List Grant

inductive Label where
  | start (a : Address)
  | choose (p a : Address)
  | join (k : Nat)
  | attach (k : Nat)
  | attached (k : Nat) (ok : Bool)
  | perform (k : Nat)
  | announce (k : Nat)
  | inform (k : Nat) (id : UInt32)
  | suspect (b a : Address)
  | receive (k : Nat)
  | drop (p : Address) (id : UInt32)
  | crash (a : Address)
  | elect (a : Address)
  | takeOver (a : Address)

/-- A cluster of the one server at `a`. -/
def init (a : Address) : State where
  server := update (fun _ => none) a (some ⟨(Cluster.init a.1 a.2).startAsPrimary, 1⟩)
  joining := []
  attaching := []
  tasks := []
  sent := []
  grants := [⟨FIRST_ID, a, a⟩]

namespace State

def put (s : State) (a : Address) (server : Server) : State :=
  { s with server := update s.server a (some server) }

def send (s : State) (sender receiver : Address) (content : Sent) : State :=
  { s with sent := s.sent ++ [⟨sender, receiver, content⟩] }

def attach (s : State) (p : Address) (members : List ServerAddress) : State :=
  { s with attaching := s.attaching ++ members.map fun m => (p, m) }

def leave (s : State) (a : Address) (tasks : List Task) : State :=
  { s with tasks := s.tasks ++ tasks.map fun task => (a, task) }

/-- What `handle_join` leaves when it records the member: it is in the list, the
`JoinOk` is sent, and `attach_replica` is called for it. -/
def welcome (s : State) (k : Nat) (o : Offer) (c : Cluster Address) (since : Nat) : State :=
  let member : ServerAddress := ⟨o.id, o.address.1, o.address.2⟩
  let s := { s with
    joining := s.joining.eraseIdx k
    grants := if o.fresh then ⟨o.id, o.address, o.granter⟩ :: s.grants else s.grants }
  let s := s.put o.granter ⟨c.addMember member, since⟩
  (s.send o.granter o.address (.joinOk o.id c.self.id)).attach o.granter [member]

end State

/-- What a server does with a message: its state afterwards, and what the thread that
received it has left to do. -/
def handle (c : Cluster Address) (sender : Address) : Sent → Cluster Address × List Task
  | .joinOk id primaryId =>
    (if c.self.id = 0 then c.join id primaryId sender.1 sender.2 else c, [])
  | .attach primary members => (c.replicaAttach sender primary members, [])
  | .membership members => (c, if c.primaryLink = some sender then [.renew members] else [])
  | .coordinator leader => (c, if leader.id < c.self.id then [] else [.follow c.self.id leader])
  | .election candidate =>
    (c, if c.role = .primary then [.announce candidate, .reassure candidate] else [])

/-- The next section of a thread: the state of the server afterwards, what the thread
has left to do, and whom it calls `attach_replica` for. -/
def perform (c : Cluster Address) : Task → Cluster Address × List Task × List ServerAddress
  | .announce _ | .tell _ => (c, [], [])
  | .reassure candidate => (c, if candidate.id ∈ c.links then [] else [.adopt candidate], [])
  | .adopt candidate => (c.addMember candidate, [], [candidate])
  | .follow _ leader => (c.coordinator leader, [], [])
  | .renew members => (c.setMembers members, [], [])
  | .remove id => (c.removeMember id, [.broadcast], [])
  | .broadcast => (c, [.tell c.members], [])

def step (s : State) : Label → Option State
  | .start a =>
    match s.server a with
    | none => some (s.put a ⟨Cluster.init a.1 a.2, 0⟩)
    | some _ => none
  | .choose p a =>
    match s.server p with
    | none => none
    | some ⟨c, since⟩ =>
      if c.role = .primary then
        let (assigned, id) := c.assignId a.1 a.2
        let s := s.put p ⟨assigned, since⟩
        let fresh := decide (∀ m ∈ c.members, addressOf m ≠ a)
        if id = 0 then some s else some { s with joining := s.joining ++ [⟨p, a, id, fresh⟩] }
      else none
  | .join k =>
    match s.joining[k]? with
    | none => none
    | some o =>
      match s.server o.granter with
      | none => none
      | some ⟨c, since⟩ => some (s.welcome k o c since)
  | .attach k =>
    match s.attaching[k]? with
    | none => none
    | some (p, member) =>
      match s.server p with
      | none => none
      | some ⟨c, _⟩ => some (s.send p (addressOf member) (.attach c.self c.members))
  | .attached k ok =>
    match s.attaching[k]? with
    | none => none
    | some (p, member) =>
      match s.server p with
      | none => none
      | some ⟨c, since⟩ =>
        let c := if ok then c.setLink member.id (addressOf member) else c.removeMember member.id
        let s := { s with attaching := s.attaching.eraseIdx k }
        some ((s.put p ⟨c, since⟩).leave p [.broadcast])
  | .perform k =>
    match s.tasks[k]? with
    | none => none
    | some (a, task) =>
      match s.server a with
      | none => none
      | some ⟨c, since⟩ =>
        let (c, tasks, members) := perform c task
        let s := { s with tasks := s.tasks.eraseIdx k }
        some (((s.put a ⟨c, since⟩).leave a tasks).attach a members)
  | .announce k =>
    match s.tasks[k]? with
    | some (p, .announce member) =>
      match s.server p with
      | none => none
      | some ⟨c, _⟩ => some (s.send p (addressOf member) (.coordinator c.self))
    | _ => none
  | .inform k id =>
    match s.tasks[k]? with
    | some (p, .tell members) =>
      match s.server p with
      | none => none
      | some ⟨c, _⟩ => c.links[id]?.map fun a => s.send p a (.membership members)
    | _ => none
  | .suspect b a =>
    match s.server b with
    | none => none
    | some ⟨c, _⟩ => some (s.send b a (.election c.self))
  | .receive k =>
    match s.sent[k]? with
    | none => none
    | some ⟨sender, receiver, content⟩ =>
      let s := { s with sent := s.sent.eraseIdx k }
      match s.server receiver with
      | none => some s
      | some ⟨c, since⟩ =>
        let (c, tasks) := handle c sender content
        some ((s.put receiver ⟨c, since⟩).leave receiver tasks)
  | .drop p id =>
    match s.server p with
    | none => none
    | some ⟨c, since⟩ =>
      if id ∈ c.links then some ((s.put p ⟨c.takeLink id, since⟩).leave p [.remove id]) else none
  | .crash a =>
    some { s with server := update s.server a none
                  joining := s.joining.filter fun o => o.granter ≠ a
                  attaching := s.attaching.filter fun call => call.1 ≠ a
                  tasks := s.tasks.filter fun task => task.1 ≠ a }
  | .elect a =>
    match s.server a with
    | none => none
    | some ⟨c, since⟩ => if c.role = .primary then none else some (s.put a ⟨c.startRound.1, since⟩)
  | .takeOver a =>
    match s.server a with
    | none => none
    | some ⟨c, _⟩ =>
      if c.role = .primary then none
      else
        let (c, others) := c.becomePrimary
        some (((s.put a ⟨c, s.grants.length⟩).attach a others).leave a (others.map .announce))

/-! ## What a step does -/

section Put

variable {s t : State} {a b : Address} {server other : Server}

theorem put_cases (same : t.server = (s.put a server).server) (running : t.server b = some other) :
    b = a ∧ other = server ∨ b ≠ a ∧ s.server b = some other := by
  rw [same] at running
  exact (update_cases running).imp_left fun ⟨here, eq⟩ => ⟨here, (Option.some.inj eq).symm⟩

theorem put_of_ne (same : t.server = (s.put a server).server) (away : b ≠ a) :
    t.server b = s.server b := by
  rw [same]
  exact update_of_ne away ..

theorem put_self (same : t.server = (s.put a server).server) : t.server a = some server := by
  rw [same]
  exact update_self ..

theorem keeps_put {old : Server} (same : t.server = (s.put a server).server)
    (was : s.server a = some old) (self : server.cluster.self = old.cluster.self)
    (running : s.server b = some other) :
    ∃ other', t.server b = some other' ∧ other'.cluster.self = other.cluster.self := by
  by_cases here : b = a
  · subst here
    cases was.symm.trans running
    exact ⟨server, put_self same, self⟩
  · exact ⟨other, (put_of_ne same here).trans running, rfl⟩

theorem crash_cases (running : update s.server a none b = some server) :
    b ≠ a ∧ s.server b = some server :=
  (update_cases running).resolve_left fun ⟨_, eq⟩ => nomatch eq

end Put

/-- The kinds of steps. -/
inductive Stepped (s : State) : Label → State → Prop where
  | start {a : Address} (absent : s.server a = none) :
      Stepped s (.start a) (s.put a ⟨Cluster.init a.1 a.2, 0⟩)
  | refused {p a : Address} {c : Cluster Address} {since : Nat}
      (running : s.server p = some ⟨c, since⟩) (leads : c.role = .primary)
      (out : (c.assignId a.1 a.2).2 = 0) :
      Stepped s (.choose p a) (s.put p ⟨(c.assignId a.1 a.2).1, since⟩)
  | chosen {p a : Address} {c : Cluster Address} {since : Nat}
      (running : s.server p = some ⟨c, since⟩) (leads : c.role = .primary)
      (left : (c.assignId a.1 a.2).2 ≠ 0) :
      Stepped s (.choose p a) { s.put p ⟨(c.assignId a.1 a.2).1, since⟩ with
        joining := s.joining ++ [⟨p, a, (c.assignId a.1 a.2).2,
          decide (∀ m ∈ c.members, addressOf m ≠ a)⟩] }
  | join {k : Nat} {o : Offer} {c : Cluster Address} {since : Nat}
      (offered : s.joining[k]? = some o) (running : s.server o.granter = some ⟨c, since⟩) :
      Stepped s (.join k) (s.welcome k o c since)
  | attach {k : Nat} {p : Address} {member : ServerAddress} {c : Cluster Address} {since : Nat}
      (calling : s.attaching[k]? = some (p, member)) (running : s.server p = some ⟨c, since⟩) :
      Stepped s (.attach k) (s.send p (addressOf member) (.attach c.self c.members))
  | attached {k : Nat} {ok : Bool} {p : Address} {member : ServerAddress} {c : Cluster Address}
      {since : Nat} (calling : s.attaching[k]? = some (p, member))
      (running : s.server p = some ⟨c, since⟩) :
      Stepped s (.attached k ok) (({ s with attaching := s.attaching.eraseIdx k }.put p
        ⟨if ok then c.setLink member.id (addressOf member) else c.removeMember member.id,
          since⟩).leave p [.broadcast])
  | perform {k : Nat} {a : Address} {task : Task} {c : Cluster Address} {since : Nat}
      (waiting : s.tasks[k]? = some (a, task)) (running : s.server a = some ⟨c, since⟩) :
      Stepped s (.perform k) ((({ s with tasks := s.tasks.eraseIdx k }.put a
        ⟨(perform c task).1, since⟩).leave a (perform c task).2.1).attach a (perform c task).2.2)
  | announce {k : Nat} {p : Address} {member : ServerAddress} {c : Cluster Address} {since : Nat}
      (waiting : s.tasks[k]? = some (p, .announce member))
      (running : s.server p = some ⟨c, since⟩) :
      Stepped s (.announce k) (s.send p (addressOf member) (.coordinator c.self))
  | inform {k : Nat} {p a : Address} {members : List ServerAddress} {id : UInt32}
      {c : Cluster Address} {since : Nat} (waiting : s.tasks[k]? = some (p, .tell members))
      (running : s.server p = some ⟨c, since⟩) (link : c.links[id]? = some a) :
      Stepped s (.inform k id) (s.send p a (.membership members))
  | suspect {b a : Address} {c : Cluster Address} {since : Nat}
      (running : s.server b = some ⟨c, since⟩) :
      Stepped s (.suspect b a) (s.send b a (.election c.self))
  | unheard {k : Nat} {e : Envelope} (waiting : s.sent[k]? = some e)
      (absent : s.server e.receiver = none) :
      Stepped s (.receive k) { s with sent := s.sent.eraseIdx k }
  | heard {k : Nat} {sender receiver : Address} {content : Sent} {c : Cluster Address} {since : Nat}
      (waiting : s.sent[k]? = some ⟨sender, receiver, content⟩)
      (running : s.server receiver = some ⟨c, since⟩) :
      Stepped s (.receive k) (({ s with sent := s.sent.eraseIdx k }.put receiver
        ⟨(handle c sender content).1, since⟩).leave receiver (handle c sender content).2)
  | drop {p : Address} {id : UInt32} {c : Cluster Address} {since : Nat}
      (running : s.server p = some ⟨c, since⟩) (linked : id ∈ c.links) :
      Stepped s (.drop p id) ((s.put p ⟨c.takeLink id, since⟩).leave p [.remove id])
  | crash {a : Address} :
      Stepped s (.crash a) { s with
        server := update s.server a none
        joining := s.joining.filter fun o => o.granter ≠ a
        attaching := s.attaching.filter fun call => call.1 ≠ a
        tasks := s.tasks.filter fun task => task.1 ≠ a }
  | elect {a : Address} {c : Cluster Address} {since : Nat}
      (running : s.server a = some ⟨c, since⟩) (backup : c.role ≠ .primary) :
      Stepped s (.elect a) (s.put a ⟨c.startRound.1, since⟩)
  | takeOver {a : Address} {c : Cluster Address} {since : Nat}
      (running : s.server a = some ⟨c, since⟩) (backup : c.role ≠ .primary) :
      Stepped s (.takeOver a)
        (((s.put a ⟨c.becomePrimary.1, s.grants.length⟩).attach a c.becomePrimary.2).leave a
          (c.becomePrimary.2.map .announce))

theorem Stepped.of_step {s s' : State} {label : Label} (stepped : step s label = some s') :
    Stepped s label s' := by
  cases label with
  | start a =>
    simp only [step] at stepped
    split at stepped <;> cases stepped
    exact .start ‹_›
  | choose p a =>
    simp only [step] at stepped
    split at stepped
    · cases stepped
    rename_i running
    split at stepped
    swap
    · cases stepped
    rename_i leads
    split at stepped <;> cases stepped
    · exact .refused running leads ‹_›
    · exact .chosen running leads ‹_›
  | join k =>
    simp only [step] at stepped
    split at stepped
    · cases stepped
    split at stepped <;> cases stepped
    exact .join ‹_› ‹_›
  | attach k =>
    simp only [step] at stepped
    split at stepped
    · cases stepped
    split at stepped <;> cases stepped
    exact .attach ‹_› ‹_›
  | attached k ok =>
    simp only [step] at stepped
    split at stepped
    · cases stepped
    split at stepped <;> cases stepped
    exact .attached ‹_› ‹_›
  | perform k =>
    simp only [step] at stepped
    split at stepped
    · cases stepped
    split at stepped <;> cases stepped
    exact .perform ‹_› ‹_›
  | announce k =>
    simp only [step] at stepped
    split at stepped
    swap
    · cases stepped
    split at stepped <;> cases stepped
    exact .announce ‹_› ‹_›
  | inform k id =>
    simp only [step] at stepped
    split at stepped
    swap
    · cases stepped
    rename_i waiting
    split at stepped
    · cases stepped
    rename_i running
    obtain ⟨a, link, rfl⟩ := Option.map_eq_some_iff.mp stepped
    exact .inform waiting running link
  | suspect b a =>
    simp only [step] at stepped
    split at stepped <;> cases stepped
    exact .suspect ‹_›
  | receive k =>
    simp only [step] at stepped
    split at stepped
    · cases stepped
    rename_i waiting
    split at stepped <;> cases stepped
    · exact .unheard waiting ‹_›
    · exact .heard waiting ‹_›
  | drop p id =>
    simp only [step] at stepped
    split at stepped
    · cases stepped
    split at stepped <;> cases stepped
    exact .drop ‹_› ‹_›
  | crash a =>
    cases stepped
    exact .crash
  | elect a =>
    simp only [step] at stepped
    split at stepped
    · cases stepped
    split at stepped <;> cases stepped
    exact .elect ‹_› ‹_›
  | takeOver a =>
    simp only [step] at stepped
    split at stepped
    · cases stepped
    split at stepped <;> cases stepped
    exact .takeOver ‹_› ‹_›

/-- A server that has an id keeps it whatever it receives, and no message makes a
server the primary. -/
theorem handle_keeps (c : Cluster Address) (sender : Address) (content : Sent) :
    (c.self.id ≠ 0 → (handle c sender content).1.self = c.self) ∧
      ((handle c sender content).1.role = .primary → c.role = .primary) := by
  cases content with
  | joinOk given primaryId =>
    dsimp only [handle]
    split
    · exact ⟨fun named => absurd ‹_› named, nofun⟩
    · exact ⟨fun _ => rfl, id⟩
  | attach primary members => exact ⟨fun _ => rfl, nofun⟩
  | membership | coordinator | election => exact ⟨fun _ => rfl, id⟩

theorem perform_keeps (c : Cluster Address) (task : Task) :
    (perform c task).1.self = c.self ∧
      ((perform c task).1.role = .primary → c.role = .primary) := by
  cases task with
  | follow me leader => exact ⟨rfl, nofun⟩
  | announce | reassure | adopt | renew | remove | broadcast | tell => exact ⟨rfl, id⟩

/-- A server that has an id keeps it until it crashes. -/
theorem stays_step {s s' : State} {label : Label} {b : Address} {server : Server}
    (stepped : step s label = some s') (running : s.server b = some server)
    (named : server.cluster.self.id ≠ 0) (alive : label ≠ .crash b) :
    ∃ server', s'.server b = some server' ∧ server'.cluster.self = server.cluster.self := by
  cases Stepped.of_step stepped with
  | start absent =>
    refine ⟨server, (put_of_ne rfl ?_).trans running, rfl⟩
    rintro rfl
    cases absent.symm.trans running
  | @refused p a c since was leads out =>
    obtain ⟨lowest, same⟩ := c.assignId_keeps a.1 a.2
    exact keeps_put rfl was (by rw [same]) running
  | @chosen p a c since was leads left =>
    obtain ⟨lowest, same⟩ := c.assignId_keeps a.1 a.2
    exact keeps_put rfl was (by rw [same]) running
  | join offered was => exact keeps_put rfl was rfl running
  | attach | announce | inform | suspect | unheard => exact ⟨server, running, rfl⟩
  | attached calling was =>
    refine keeps_put rfl was ?_ running
    split <;> rfl
  | @perform k a task c since waiting was =>
    exact keeps_put rfl was (perform_keeps c task).1 running
  | @heard k sender receiver content c since waiting was =>
    by_cases here : b = receiver
    · subst here
      cases running.symm.trans was
      exact ⟨_, put_self rfl, (handle_keeps c sender content).1 named⟩
    · exact ⟨server, (put_of_ne rfl here).trans running, rfl⟩
  | drop was linked => exact keeps_put rfl was rfl running
  | crash =>
    refine ⟨server, (update_of_ne ?_ ..).trans running, rfl⟩
    rintro rfl
    exact alive rfl
  | elect was backup => exact keeps_put rfl was rfl running
  | takeOver was backup => exact keeps_put rfl was rfl running

/-- An offer is one of those before, or the id a primary has just chosen. -/
theorem joining_step {s s' : State} {label : Label} {o : Offer}
    (stepped : step s label = some s') (mem : o ∈ s'.joining) :
    o ∈ s.joining ∧ label ≠ .crash o.granter ∨
      ∃ p a c since, label = .choose p a ∧ s.server p = some ⟨c, since⟩ ∧ c.role = .primary ∧
        (c.assignId a.1 a.2).2 ≠ 0 ∧
        o = ⟨p, a, (c.assignId a.1 a.2).2, decide (∀ m ∈ c.members, addressOf m ≠ a)⟩ := by
  cases Stepped.of_step stepped with
  | chosen running leads left =>
    rcases List.mem_append.mp mem with old | new
    · exact .inl ⟨old, nofun⟩
    · exact .inr ⟨_, _, _, _, rfl, running, leads, left, List.mem_singleton.mp new⟩
  | join => exact .inl ⟨List.mem_of_mem_eraseIdx mem, nofun⟩
  | crash =>
    obtain ⟨old, other⟩ := List.mem_filter.mp mem
    exact .inl ⟨old, fun same => of_decide_eq_true other (Label.crash.inj same).symm⟩
  | _ => exact .inl ⟨mem, nofun⟩

/-! ## What the servers know of each other -/

/-- Every member in the message is `fit`, a candidate if it has an id. -/
def Envelope.Sound (fit : ServerAddress → Prop) (e : Envelope) : Prop :=
  match e.content with
  | .joinOk id primaryId => id ≠ 0 ∧ fit ⟨id, e.receiver.1, e.receiver.2⟩ ∧
      fit ⟨primaryId, e.sender.1, e.sender.2⟩
  | .attach primary members => fit primary ∧ ∀ m ∈ members, fit m
  | .membership members => ∀ m ∈ members, fit m
  | .coordinator leader => fit leader
  | .election candidate => candidate.id ≠ 0 → fit candidate

/-- The same of a task of a server with the id `me`, which it has to have to do what
a primary does. -/
def Task.Sound (fit : ServerAddress → Prop) (me : UInt32) : Task → Prop
  | .announce _ | .remove _ | .broadcast => me ≠ 0
  | .reassure candidate | .adopt candidate => me ≠ 0 ∧ fit candidate
  | .follow _ leader => fit leader
  | .renew members | .tell members => ∀ m ∈ members, fit m

/-- The server at `a` knows fit members once it has an id; before it has no link and
is not the primary. -/
structure Server.Sound (fit : ServerAddress → Prop) (a : Address) (server : Server) : Prop where
  address : addressOf server.cluster.self = a
  self : server.cluster.self.id ≠ 0 → fit server.cluster.self
  members : server.cluster.self.id ≠ 0 → ∀ m ∈ server.cluster.members, fit m
  linked : ∀ id ∈ server.cluster.links, server.cluster.self.id ≠ 0
  ranked : server.cluster.role = .primary → server.cluster.self.id ≠ 0

structure State.Sound (fit : ServerAddress → Prop) (s : State) : Prop where
  servers : ∀ a server, s.server a = some server → server.Sound fit a
  attaching : ∀ call ∈ s.attaching, ∃ server,
    s.server call.1 = some server ∧ server.cluster.self.id ≠ 0
  tasks : ∀ task ∈ s.tasks, ∃ server,
    s.server task.1 = some server ∧ task.2.Sound fit server.cluster.self.id
  sent : ∀ e ∈ s.sent, e.Sound fit

/-- Fit members are taken in, and only a server that has an id takes over. -/
def Admits (fit : ServerAddress → Prop) (s : State) : Label → Prop
  | .join k => ∀ o, s.joining[k]? = some o → o.id ≠ 0 ∧ fit ⟨o.id, o.address.1, o.address.2⟩ ∧
      ∃ server, s.server o.granter = some server ∧ server.cluster.self.id ≠ 0
  | .receive k => ∀ sender receiver candidate server,
      s.sent[k]? = some ⟨sender, receiver, .election candidate⟩ →
        s.server receiver = some server → server.cluster.role = .primary → candidate.id ≠ 0
  | .takeOver a => ∀ server, s.server a = some server → server.cluster.self.id ≠ 0
  | _ => True

section Sound

variable {fit fit' : ServerAddress → Prop} {a : Address} {c c' : Cluster Address} {since : Nat}
variable {m : ServerAddress} {s s' : State}

theorem Task.Sound.mono {task : Task} {me me' : UInt32} (sound : task.Sound fit me)
    (more : ∀ m, fit m → fit' m) (named : me ≠ 0 → me' ≠ 0) : task.Sound fit' me' := by
  cases task with
  | announce | remove | broadcast => exact named sound
  | reassure | adopt => exact ⟨named sound.1, more _ sound.2⟩
  | follow => exact more _ sound
  | renew | tell => exact fun m mem => more m (sound m mem)

theorem Envelope.Sound.mono {e : Envelope} (sound : e.Sound fit) (more : ∀ m, fit m → fit' m) :
    e.Sound fit' := by
  obtain ⟨sender, receiver, content⟩ := e
  cases content with
  | joinOk id primaryId => exact ⟨sound.1, more _ sound.2.1, more _ sound.2.2⟩
  | attach primary members => exact ⟨more _ sound.1, fun m mem => more m (sound.2 m mem)⟩
  | membership members => exact fun m mem => more m (sound m mem)
  | coordinator leader => exact more _ sound
  | election candidate => exact fun named => more _ (sound named)

theorem State.Sound.mono (sound : s.Sound fit) (more : ∀ m, fit m → fit' m) : s.Sound fit' where
  servers a server running := by
    have known := sound.servers a server running
    exact ⟨known.address, fun named => more _ (known.self named), fun named m mem =>
      more m (known.members named m mem), known.linked, known.ranked⟩
  attaching := sound.attaching
  tasks task mem := by
    obtain ⟨server, running, good⟩ := sound.tasks task mem
    exact ⟨server, running, good.mono more id⟩
  sent e mem := (sound.sent e mem).mono more

/-- A change of the cluster state that leaves the server its id, and does not make it
the primary. -/
theorem Server.Sound.congr (sound : Server.Sound fit a ⟨c, since⟩) {since' : Nat}
    (self : c'.self = c.self) (members : ∀ m ∈ c'.members, m = c.self ∨ m ∈ c.members ∨ fit m)
    (linked : ∀ id ∈ c'.links, id ∈ c.links ∨ c.self.id ≠ 0)
    (ranked : c'.role = .primary → c.role = .primary ∨ c.self.id ≠ 0) :
    Server.Sound fit a ⟨c', since'⟩ := by
  constructor
  all_goals dsimp only
  all_goals rw [self]
  · exact sound.address
  · exact sound.self
  · intro named m mem
    rcases members m mem with rfl | mem | known
    · exact sound.self named
    · exact sound.members named m mem
    · exact known
  · exact fun id mem => (linked id mem).elim (sound.linked id) fun named => named
  · exact fun role => (ranked role).elim sound.ranked fun named => named

/-- A server takes in a fit member. -/
theorem Server.Sound.addMember (sound : Server.Sound fit a ⟨c, since⟩) (known : fit m) :
    Server.Sound fit a ⟨c.addMember m, since⟩ := by
  refine sound.congr rfl (fun other mem => .inr ?_) (fun _ => .inl) .inl
  rcases mem_of_mem_upsert mem with rfl | mem
  · exact .inr known
  · exact .inl mem

/-- A server receives its id. -/
theorem Server.Sound.join {p : Address} {id primaryId : UInt32}
    (sound : Server.Sound fit a ⟨c, since⟩) (named : id ≠ 0) (given : fit ⟨id, a.1, a.2⟩)
    (leader : fit ⟨primaryId, p.1, p.2⟩) :
    Server.Sound fit a ⟨c.join id primaryId p.1 p.2, since⟩ := by
  have self : ({ c.self with id } : ServerAddress) = ⟨id, a.1, a.2⟩ := by
    rw [← sound.address]
    rfl
  refine ⟨sound.address, fun _ => ?_, fun _ m mem => ?_, fun _ _ => named, fun role => ?_⟩
  · change fit { c.self with id }
    exact self ▸ given
  · rcases List.mem_cons.mp mem with rfl | mem
    · exact leader
    · exact List.mem_singleton.mp mem ▸ self ▸ given
  · cases role

/-- What a server makes of a message. -/
theorem Server.Sound.handle {sender : Address} {content : Sent}
    (sound : Server.Sound fit a ⟨c, since⟩) (sent : Envelope.Sound fit ⟨sender, a, content⟩)
    (named : ∀ candidate, content = .election candidate → c.role = .primary →
      candidate.id ≠ 0) :
    Server.Sound fit a ⟨(handle c sender content).1, since⟩ ∧
      ∀ task ∈ (handle c sender content).2, task.Sound fit c.self.id := by
  cases content with
  | joinOk id primaryId =>
    refine ⟨?_, nofun⟩
    dsimp only [Ids.handle]
    split
    · exact sound.join sent.1 sent.2.1 sent.2.2
    · exact sound
  | attach primary members =>
    refine ⟨sound.congr rfl (fun m mem => ?_) (fun id mem => ?_) nofun, nofun⟩
    · exact (mem_of_mem_upsert mem).imp_right fun mem => .inr (sent.2 m mem)
    · dsimp only [Ids.handle, Cluster.replicaAttach] at mem
      split at mem
      · exact (ExtTreeMap.not_mem_empty mem).elim
      · exact .inl mem
  | membership members =>
    refine ⟨sound, fun task mem => ?_⟩
    dsimp only [Ids.handle] at mem
    split at mem
    · cases List.mem_singleton.mp mem
      exact sent
    · exact (List.not_mem_nil mem).elim
  | coordinator leader =>
    refine ⟨sound, fun task mem => ?_⟩
    dsimp only [Ids.handle] at mem
    split at mem
    · exact (List.not_mem_nil mem).elim
    · cases List.mem_singleton.mp mem
      exact sent
  | election candidate =>
    refine ⟨sound, fun task mem => ?_⟩
    dsimp only [Ids.handle] at mem
    split at mem
    · rename_i leads
      have own := sound.ranked leads
      rcases List.mem_cons.mp mem with rfl | mem
      · exact own
      · cases List.mem_singleton.mp mem
        exact ⟨own, sent (named candidate rfl leads)⟩
    · exact (List.not_mem_nil mem).elim

/-- What a thread of a server does in its next section. -/
theorem Server.Sound.perform {task : Task} (sound : Server.Sound fit a ⟨c, since⟩)
    (waiting : task.Sound fit c.self.id) :
    Server.Sound fit a ⟨(perform c task).1, since⟩ ∧
      (∀ next ∈ (perform c task).2.1, next.Sound fit c.self.id) ∧
      ((perform c task).2.2 ≠ [] → c.self.id ≠ 0) := by
  cases task with
  | announce | tell => exact ⟨sound, nofun, fun called => (called rfl).elim⟩
  | reassure candidate =>
    refine ⟨sound, fun next mem => ?_, fun called => (called rfl).elim⟩
    dsimp only [Ids.perform] at mem
    split at mem
    · exact (List.not_mem_nil mem).elim
    · cases List.mem_singleton.mp mem
      exact waiting
  | adopt candidate => exact ⟨sound.addMember waiting.2, nofun, fun _ => waiting.1⟩
  | follow me leader =>
    refine ⟨sound.congr rfl (fun m mem => ?_) (fun id mem => ?_) nofun, nofun,
      fun called => (called rfl).elim⟩
    · rcases mem_of_mem_upsert mem with rfl | mem
      · exact .inr (.inr waiting)
      · exact .inr (.inl mem)
    · dsimp only [Ids.perform, Cluster.coordinator] at mem
      split at mem
      · exact (ExtTreeMap.not_mem_empty mem).elim
      · exact .inl mem
  | renew members =>
    refine ⟨sound.congr rfl (fun m mem => ?_) (fun _ => .inl) .inl, nofun,
      fun called => (called rfl).elim⟩
    exact (mem_of_mem_upsert mem).imp_right fun mem => .inr (waiting m mem)
  | remove id =>
    refine ⟨sound.congr rfl (fun m mem => .inr (.inl (Cluster.mem_removeMember.mp mem).1))
      (fun _ => .inl) .inl, fun next mem => ?_, fun called => (called rfl).elim⟩
    cases List.mem_singleton.mp mem
    exact waiting
  | broadcast =>
    refine ⟨sound, fun next mem => ?_, fun called => (called rfl).elim⟩
    cases List.mem_singleton.mp mem
    exact sound.members waiting

theorem State.Sound.put {server : Server} (sound : s.Sound fit) (known : server.Sound fit a)
    (named : ∀ old, s.server a = some old → old.cluster.self.id ≠ 0 →
      server.cluster.self.id ≠ 0) : (s.put a server).Sound fit where
  servers b other running := by
    rcases put_cases rfl running with ⟨rfl, rfl⟩ | ⟨-, was⟩
    · exact known
    · exact sound.servers b other was
  attaching call mem := by
    obtain ⟨old, running, id⟩ := sound.attaching call mem
    by_cases same : call.1 = a
    · subst same
      exact ⟨server, put_self rfl, named old running id⟩
    · exact ⟨old, (put_of_ne rfl same).trans running, id⟩
  tasks task mem := by
    obtain ⟨old, running, waiting⟩ := sound.tasks task mem
    by_cases same : task.1 = a
    · subst same
      exact ⟨server, put_self rfl, waiting.mono (fun _ => id) (named old running)⟩
    · exact ⟨old, (put_of_ne rfl same).trans running, waiting⟩
  sent := sound.sent

/-- What is done with is forgotten. -/
theorem State.Sound.forget (sound : s.Sound fit) {attaching : List (Address × ServerAddress)}
    {tasks : List (Address × Task)} {sent : List Envelope}
    (called : ∀ call ∈ attaching, call ∈ s.attaching) (left : ∀ task ∈ tasks, task ∈ s.tasks)
    (sends : ∀ e ∈ sent, e ∈ s.sent) : { s with attaching, tasks, sent }.Sound fit :=
  ⟨sound.servers, fun call mem => sound.attaching call (called call mem),
    fun task mem => sound.tasks task (left task mem), fun e mem => sound.sent e (sends e mem)⟩

/-- `handle_join` chooses an id. -/
theorem State.Sound.assign (sound : s.Sound fit) (running : s.server a = some ⟨c, since⟩)
    (leads : c.role = .primary) (host : Bytes) (port : UInt16) :
    (s.put a ⟨(c.assignId host port).1, since⟩).Sound fit := by
  obtain ⟨lowest, same⟩ := c.assignId_keeps host port
  have known := sound.servers a _ running
  rw [same]
  exact sound.put (known.congr rfl (fun m mem => .inr (.inl mem)) (fun _ => .inl) .inl)
    fun _ _ _ => known.ranked leads

theorem State.Sound.send {sender receiver : Address} (sound : s.Sound fit) (content : Sent)
    (known : Envelope.Sound fit ⟨sender, receiver, content⟩) :
    (s.send sender receiver content).Sound fit where
  servers := sound.servers
  attaching := sound.attaching
  tasks := sound.tasks
  sent e mem := by
    rcases List.mem_append.mp mem with old | new
    · exact sound.sent e old
    · exact List.mem_singleton.mp new ▸ known

theorem State.Sound.attach {server : Server} (sound : s.Sound fit) (members : List ServerAddress)
    (running : s.server a = some server) (named : members ≠ [] → server.cluster.self.id ≠ 0) :
    (s.attach a members).Sound fit where
  servers := sound.servers
  attaching call mem := by
    rcases List.mem_append.mp mem with old | new
    · exact sound.attaching call old
    · obtain ⟨m, called, rfl⟩ := List.mem_map.mp new
      exact ⟨server, running, named (List.ne_nil_of_mem called)⟩
  tasks := sound.tasks
  sent := sound.sent

theorem State.Sound.leave {server : Server} {tasks : List Task} (sound : s.Sound fit)
    (running : s.server a = some server)
    (known : ∀ task ∈ tasks, task.Sound fit server.cluster.self.id) :
    (s.leave a tasks).Sound fit where
  servers := sound.servers
  attaching := sound.attaching
  tasks task mem := by
    rcases List.mem_append.mp mem with old | new
    · exact sound.tasks task old
    · obtain ⟨next, left, rfl⟩ := List.mem_map.mp new
      exact ⟨server, running, known next left⟩
  sent := sound.sent

/-- Every step keeps what is known fit, when fit members are taken in. -/
theorem State.Sound.step {label : Label} (sound : s.Sound fit) (admits : Admits fit s label)
    (stepped : step s label = some s') : s'.Sound fit := by
  cases Stepped.of_step stepped with
  | start absent =>
    refine sound.put ?_ fun old running => by cases absent.symm.trans running
    exact ⟨rfl, fun id => (id rfl).elim, fun id => (id rfl).elim,
      fun id mem => (ExtTreeMap.not_mem_empty mem).elim, nofun⟩
  | refused running leads out => exact sound.assign running leads ..
  | @chosen p a c since running leads left =>
    have put := sound.assign running leads a.1 a.2
    exact ⟨put.servers, put.attaching, put.tasks, put.sent⟩
  | @join k o c since offered running =>
    obtain ⟨left, recorded, server, found, named⟩ := admits o offered
    cases running.symm.trans found
    have known := sound.servers _ _ running
    have leader : fit ⟨c.self.id, o.granter.1, o.granter.2⟩ := by
      rw [← known.address]
      exact known.self named
    have put := sound.put (known.addMember recorded) fun _ _ _ => named
    have reply : Envelope.Sound fit ⟨o.granter, o.address, .joinOk o.id c.self.id⟩ :=
      ⟨left, recorded, leader⟩
    have told := (put.send _ reply).attach [⟨o.id, o.address.1, o.address.2⟩] (put_self rfl)
      fun _ => named
    exact ⟨told.servers, told.attaching, told.tasks, told.sent⟩
  | attach calling running =>
    obtain ⟨server, found, named⟩ := sound.attaching _ (List.mem_of_getElem? calling)
    cases running.symm.trans found
    have known := sound.servers _ _ running
    exact sound.send (.attach _ _) ⟨known.self named, known.members named⟩
  | @attached k ok p member c since calling running =>
    obtain ⟨server, found, named⟩ := sound.attaching _ (List.mem_of_getElem? calling)
    cases running.symm.trans found
    have known := sound.servers p _ running
    have ended : { s with attaching := s.attaching.eraseIdx k }.Sound fit :=
      sound.forget (fun _ => List.mem_of_mem_eraseIdx) (fun _ => id) fun _ => id
    refine (ended.put ?_ fun _ _ _ => ?_).leave (put_self rfl) fun task mem => ?_
    · cases ok with
      | true => exact known.congr rfl (fun m mem => .inr (.inl mem)) (fun _ _ => .inr named) .inl
      | false =>
        exact known.congr rfl (fun m mem => .inr (.inl (Cluster.mem_removeMember.mp mem).1))
          (fun _ => .inl) .inl
    · cases ok <;> exact named
    · cases List.mem_singleton.mp mem
      cases ok <;> exact named
  | @perform k a task c since waiting running =>
    obtain ⟨server, found, good⟩ := sound.tasks _ (List.mem_of_getElem? waiting)
    cases running.symm.trans found
    obtain ⟨known, next, named⟩ := (sound.servers a _ running).perform good
    have taken : { s with tasks := s.tasks.eraseIdx k }.Sound fit :=
      sound.forget (fun _ => id) (fun _ => List.mem_of_mem_eraseIdx) fun _ => id
    have self := (perform_keeps c task).1
    have put := taken.put known fun old was id => by
      cases running.symm.trans was
      exact self ▸ id
    exact (put.leave (put_self rfl) fun task mem => self ▸ next task mem).attach _ (put_self rfl)
      fun called => self ▸ named called
  | announce waiting running =>
    obtain ⟨server, found, named⟩ := sound.tasks _ (List.mem_of_getElem? waiting)
    cases running.symm.trans found
    exact sound.send (.coordinator _) ((sound.servers _ _ running).self named)
  | inform waiting running link =>
    obtain ⟨server, found, known⟩ := sound.tasks _ (List.mem_of_getElem? waiting)
    exact sound.send (.membership _) known
  | suspect running => exact sound.send (.election _) (sound.servers _ _ running).self
  | unheard => exact sound.forget (fun _ => id) (fun _ => id) fun _ => List.mem_of_mem_eraseIdx
  | @heard k sender receiver content c since waiting running =>
    have taken : { s with sent := s.sent.eraseIdx k }.Sound fit :=
      sound.forget (fun _ => id) (fun _ => id) fun _ => List.mem_of_mem_eraseIdx
    obtain ⟨known, left⟩ := (sound.servers receiver _ running).handle
      (sound.sent _ (List.mem_of_getElem? waiting)) fun candidate same role =>
        admits sender receiver candidate _ (same ▸ waiting) running role
    have named : c.self.id ≠ 0 → (handle c sender content).1.self.id ≠ 0 := fun id => by
      rw [(handle_keeps c sender content).1 id]
      exact id
    refine (taken.put known fun old found => ?_).leave (put_self rfl) fun task mem =>
      (left task mem).mono (fun _ => id) named
    cases running.symm.trans found
    exact named
  | @drop p id c since running linked =>
    have known := sound.servers p _ running
    have named := known.linked id linked
    have cut : Server.Sound fit p ⟨c.takeLink id, since⟩ :=
      known.congr rfl (fun m mem => .inr (.inl mem))
        (fun _ mem => .inl (ExtTreeMap.mem_of_mem_erase mem)) .inl
    refine (sound.put cut fun _ _ _ => named).leave (put_self rfl) fun task mem => ?_
    cases List.mem_singleton.mp mem
    exact named
  | crash =>
    refine ⟨fun b server running => ?_, fun call mem => ?_, fun task mem => ?_, sound.sent⟩
    · exact sound.servers b server (crash_cases running).2
    · obtain ⟨mem, other⟩ := List.mem_filter.mp mem
      obtain ⟨server, running, named⟩ := sound.attaching call mem
      exact ⟨server, (update_of_ne (of_decide_eq_true other) ..).trans running, named⟩
    · obtain ⟨mem, other⟩ := List.mem_filter.mp mem
      obtain ⟨server, running, good⟩ := sound.tasks task mem
      exact ⟨server, (update_of_ne (of_decide_eq_true other) ..).trans running, good⟩
  | elect running backup =>
    refine sound.put ((sound.servers _ _ running).congr rfl (fun m mem => .inr (.inl mem))
      (fun _ => .inl) .inl) fun old found named => ?_
    cases running.symm.trans found
    exact named
  | @takeOver a c since running backup =>
    have named := admits _ running
    have kept : ∀ m ∈ c.becomePrimary.1.members, m ∈ c.members :=
      fun m => Cluster.mem_of_mem_becomePrimary
    have leads : Server.Sound fit a ⟨c.becomePrimary.1, s.grants.length⟩ :=
      (sound.servers a _ running).congr rfl (fun m mem => .inr (.inl (kept m mem)))
        (fun _ => .inl) fun _ => .inr named
    refine ((sound.put leads fun _ _ _ => named).attach _ (put_self rfl) fun _ => named).leave
      (put_self rfl) fun task mem => ?_
    obtain ⟨m, -, rfl⟩ := List.mem_map.mp mem
    exact named

end Sound

/-! ## What the servers have to know -/

/-- The ids handed out since the first `since` ones. -/
def State.newer (s : State) (since : Nat) : List Grant := s.grants.take (s.grants.length - since)

/-- A server knows an id when it is its own or that of a member it keeps as the
new primary. -/
def Knows (c : Cluster Address) (id : UInt32) : Prop :=
  id = c.self.id ∨ ∃ m ∈ c.members, m.id = id ∧ (c.primary.id = c.self.id ∨ id ≠ c.primary.id)

/-- No `handle_join` chooses an id while another has one to record. -/
def OneAtATime (s : State) : Label → Prop
  | .choose .. => s.joining = []
  | _ => True

/-- Servers join one at a time. Only a server that has an id and knows the lowest
one handed out takes over; a primary hands out new ids only while no other server
has done so since it took over, and takes no server back that has no id. -/
def Informed (s : State) : Label → Prop
  | .choose p a => OneAtATime s (.choose p a) ∧ ∀ server, s.server p = some server →
      (∀ m ∈ server.cluster.members, addressOf m ≠ a) → ∀ g ∈ s.newer server.since, g.granter = p
  | .receive k => ∀ sender receiver candidate server,
      s.sent[k]? = some ⟨sender, receiver, .election candidate⟩ →
        s.server receiver = some server → server.cluster.role = .primary → candidate.id ≠ 0
  | .takeOver a => ∀ server, s.server a = some server →
      server.cluster.self.id ≠ 0 ∧ ∀ g ∈ s.grants.head?, Knows server.cluster g.id
  | _ => True

/-- Every id handed out is below those before it, and no two running servers
hold the same one. -/
structure Descending (s : State) : Prop where
  grants : s.grants.Pairwise fun newer older => newer.id < older.id
  servers : ∀ a b server other, s.server a = some server → s.server b = some other →
    server.cluster.self.id = other.cluster.self.id → server.cluster.self.id ≠ 0 → a = b

/-! ## Records of what was handed out -/

/-- The address of the server was given its id. -/
def Recorded (grants : List Grant) (m : ServerAddress) : Prop :=
  ∃ g ∈ grants, g.id = m.id ∧ g.address = addressOf m

/-- A primary is not above the ids handed out when it took over, or by itself since. -/
structure Server.Good (grants : List Grant) (a : Address) (server : Server) : Prop where
  since : server.since ≤ grants.length
  positive : server.cluster.role = .primary → 0 < server.cluster.lowestId
  lowest : server.cluster.role = .primary →
    (∀ g ∈ grants.take (grants.length - server.since), g.granter = a) →
      ∀ g ∈ grants, server.cluster.lowestId ≤ g.id

structure Inv (s : State) : Prop where
  descending : s.grants.Pairwise fun newer older => newer.id < older.id
  positive : ∀ g ∈ s.grants, 0 < g.id
  sound : s.Sound (Recorded s.grants)
  servers : ∀ a server, s.server a = some server → server.Good s.grants a

/-- The id that was chosen is below all those handed out, or on record. -/
structure Offer.Good (grants : List Grant) (o : Offer) : Prop where
  named : o.id ≠ 0
  fresh : o.fresh = true → ∀ g ∈ grants, o.id < g.id
  kept : o.fresh = false → Recorded grants ⟨o.id, o.address.1, o.address.2⟩

structure Joins (s : State) : Prop where
  single : s.joining.length ≤ 1
  offers : ∀ o ∈ s.joining, o.Good s.grants
  granters : ∀ o ∈ s.joining, ∃ server,
    s.server o.granter = some server ∧ server.cluster.self.id ≠ 0

section Grants

variable {grants : List Grant} {g : Grant} {m : ServerAddress} {a : Address} {server : Server}
variable {c c' : Cluster Address} {since : Nat}

theorem Recorded.cons (recorded : Recorded grants m) : Recorded (g :: grants) m := by
  obtain ⟨old, mem, same⟩ := recorded
  exact ⟨old, List.mem_cons_of_mem _ mem, same⟩

theorem Recorded.positive (recorded : Recorded grants m) (positive : ∀ g ∈ grants, 0 < g.id) :
    0 < m.id := by
  obtain ⟨old, mem, same, -⟩ := recorded
  exact same ▸ positive old mem

/-- An id is given to one address only. -/
theorem Recorded.unique {other : ServerAddress}
    (descending : grants.Pairwise fun newer older => newer.id < older.id)
    (recorded : Recorded grants m) (also : Recorded grants other) (same : m.id = other.id) :
    addressOf m = addressOf other := by
  obtain ⟨g, mem, id, address⟩ := recorded
  obtain ⟨g', mem', id', address'⟩ := also
  have once : g = g' :=
    List.Pairwise.forall_of_forall_of_flip (R := fun newer older => newer.id = older.id →
        newer = older) (fun _ _ _ => rfl)
      (descending.imp fun below same => absurd same (UInt32.ne_of_lt below))
      (descending.imp fun below same => absurd same.symm (UInt32.ne_of_lt below)) mem mem'
      (id.trans (same.trans id'.symm))
  rw [← address, ← address', once]

/-- The ids newer than the first `since` ones, after one more. -/
theorem take_newer (known : since ≤ grants.length) :
    (g :: grants).take ((g :: grants).length - since) =
      g :: grants.take (grants.length - since) := by
  rw [List.length_cons, Nat.succ_sub known, List.take_succ_cons]

/-- Another server hands out an id. -/
theorem Server.Good.granted (good : server.Good grants a) (other : g.granter ≠ a) :
    server.Good (g :: grants) a where
  since := Nat.le_succ_of_le good.since
  positive := good.positive
  lowest role own := by
    rw [take_newer good.since] at own
    exact absurd (own g List.mem_cons_self) other

/-- A change of the cluster state that leaves a primary its lowest id. -/
theorem Server.Good.congr (good : Server.Good grants a ⟨c, since⟩)
    (ranked : c'.role = .primary → c.role = .primary ∧ c'.lowestId = c.lowestId) :
    Server.Good grants a ⟨c', since⟩ where
  since := good.since
  positive := by
    intro role
    dsimp only at role ⊢
    rw [(ranked role).2]
    exact good.positive (ranked role).1
  lowest := by
    intro role
    dsimp only at role ⊢
    rw [(ranked role).2]
    exact good.lowest (ranked role).1

/-- A server takes in one whose id was handed out before. -/
theorem Server.Good.addMember (good : Server.Good grants a ⟨c, since⟩)
    (positive : ∀ g ∈ grants, 0 < g.id) (recorded : Recorded grants m) :
    Server.Good grants a ⟨c.addMember m, since⟩ where
  since := good.since
  positive role := by
    have known : c.lowestId ≠ 0 := (UInt32.ne_of_lt (good.positive role)).symm
    change 0 < min (if c.lowestId = 0 then m.id else c.lowestId) m.id
    rw [if_neg known, ← one_le_iff_pos, Std.le_min_iff, one_le_iff_pos, one_le_iff_pos]
    exact ⟨good.positive role, recorded.positive positive⟩
  lowest role own old mem := by
    have known : c.lowestId ≠ 0 := (UInt32.ne_of_lt (good.positive role)).symm
    change min (if c.lowestId = 0 then m.id else c.lowestId) m.id ≤ old.id
    rw [if_neg known]
    exact UInt32.le_trans Std.min_le_left (good.lowest role own old mem)

/-- The id a primary that knows the lowest one hands out. -/
theorem Server.Good.assignId (good : Server.Good grants a ⟨c, since⟩)
    (recorded : ∀ m ∈ c.members, Recorded grants m) (role : c.role = .primary)
    (own : ∀ g ∈ grants.take (grants.length - since), g.granter = a) {b : Address}
    (new : ∀ m ∈ c.members, addressOf m ≠ b) :
    c.assignId b.1 b.2 = (c, c.lowestId - 1) := by
  refine Cluster.assignId_eq_of_new (fun m mem same => new m mem (Prod.ext same.1 same.2))
    fun m mem => ?_
  obtain ⟨g, granted, same, -⟩ := recorded m mem
  exact same ▸ good.lowest role own g granted

/-- A server takes over that knows the lowest id handed out. -/
theorem Server.Good.becomePrimary (descending : grants.Pairwise fun newer older =>
      newer.id < older.id) (positive : ∀ g ∈ grants, 0 < g.id) (self : Recorded grants c.self)
    (recorded : ∀ m ∈ c.members, Recorded grants m) (knows : ∀ g ∈ grants.head?, Knows c g.id) :
    Server.Good grants a ⟨c.becomePrimary.1, grants.length⟩ := by
  refine ⟨Nat.le_refl _, fun _ => ?_, fun _ _ g mem => ?_⟩
  · refine one_le_iff_pos.mp ((le_foldl_min _ _ _).mpr
      ⟨one_le_iff_pos.mpr (self.positive positive), fun m mem => ?_⟩)
    exact one_le_iff_pos.mpr
      ((recorded m (Cluster.mem_of_mem_becomePrimary mem)).positive positive)
  · obtain _ | ⟨latest, rest⟩ := grants
    · cases mem
    · have known : c.becomePrimary.1.lowestId ≤ latest.id := by
        rcases knows latest rfl with own | ⟨m, member, same, stays⟩
        · exact own ▸ foldl_min_le_init _ _
        · rw [← same]
          refine foldl_min_le _ _ ?_
          split
          · exact member
          · rename_i apart
            rw [← same] at stays
            exact List.mem_filter.mpr ⟨member, decide_eq_true (stays.resolve_left apart)⟩
      rcases List.mem_cons.mp mem with rfl | older
      · exact known
      · exact UInt32.le_trans known
          (UInt32.le_of_lt ((List.pairwise_cons.mp descending).1 g older))

/-- A server hands out an id below all those before. -/
theorem Server.Good.handOut {id : UInt32} {b : Address} (good : Server.Good grants a ⟨c, since⟩)
    (left : id ≠ 0) (below : ∀ g ∈ grants, id < g.id) :
    Server.Good (⟨id, b, a⟩ :: grants) a ⟨c.addMember ⟨id, b.1, b.2⟩, since⟩ where
  since := Nat.le_succ_of_le good.since
  positive role := by
    have known : c.lowestId ≠ 0 := (UInt32.ne_of_lt (good.positive role)).symm
    change 0 < min (if c.lowestId = 0 then id else c.lowestId) id
    rw [if_neg known, ← one_le_iff_pos, Std.le_min_iff, one_le_iff_pos, one_le_iff_pos]
    exact ⟨good.positive role, UInt32.pos_iff_ne_zero.mpr left⟩
  lowest _ _ g mem := by
    change min (if c.lowestId = 0 then id else c.lowestId) id ≤ g.id
    refine UInt32.le_trans Std.min_le_right ?_
    rcases List.mem_cons.mp mem with rfl | older
    · exact UInt32.le_refl _
    · exact UInt32.le_of_lt (below g older)

end Grants

theorem addressOf_eq {m : ServerAddress} {a : Address} :
    addressOf m = a ↔ m.host = a.1 ∧ m.port = a.2 := Prod.ext_iff

/-! ## Every step keeps the records -/

section Steps

variable {s s' : State} {a : Address}

/-- What a primary that knows the lowest id chooses. -/
theorem Inv.chooses {p : Address} {c : Cluster Address} {since : Nat} (inv : Inv s)
    (informed : Informed s (.choose p a)) (running : s.server p = some ⟨c, since⟩)
    (role : c.role = .primary) :
    (c.assignId a.1 a.2).1 = c ∧ ((c.assignId a.1 a.2).2 ≠ 0 → Offer.Good s.grants
      ⟨p, a, (c.assignId a.1 a.2).2, decide (∀ m ∈ c.members, addressOf m ≠ a)⟩) := by
  have good : Server.Good s.grants p ⟨c, since⟩ := inv.servers p _ running
  have known := inv.sound.servers p _ running
  have recorded : ∀ m ∈ c.members, Recorded s.grants m := known.members (known.ranked role)
  by_cases new : ∀ m ∈ c.members, addressOf m ≠ a
  · have own : ∀ g ∈ s.newer since, g.granter = p := informed.2 _ running new
    rw [good.assignId recorded role own new]
    refine ⟨rfl, fun left => ⟨left, fun _ g mem => ?_, fun present => ?_⟩⟩
    · exact UInt32.lt_of_lt_of_le (pred_lt (good.positive role)) (good.lowest role own g mem)
    · exact absurd new (of_decide_eq_false present)
  · obtain ⟨m, mem, here, assigned⟩ : ∃ m ∈ c.members, (m.host = a.1 ∧ m.port = a.2) ∧
        c.assignId a.1 a.2 = (c, m.id) := by
      refine Cluster.assignId_of_member ?_ fun m mem =>
        UInt32.pos_iff_ne_zero.mp ((recorded m mem).positive inv.positive)
      simpa only [addressOf_eq, ne_eq, not_forall, Classical.not_not, exists_prop] using new
    rw [assigned]
    refine ⟨rfl, fun left => ⟨left, fun fresh => absurd (of_decide_eq_true fresh) new, fun _ => ?_⟩⟩
    obtain ⟨g, granted, same, address⟩ := recorded m mem
    exact ⟨g, granted, same, address.trans (addressOf_eq.mpr here)⟩

/-- One server changes, and no id is handed out. -/
theorem Inv.put {server : Server} (inv : Inv s) (good : server.Good s.grants a)
    (same : s'.server = (s.put a server).server) (grants : s'.grants = s.grants)
    (sound : s'.Sound (Recorded s.grants)) : Inv s' where
  descending := grants ▸ inv.descending
  positive := grants ▸ inv.positive
  sound := grants ▸ sound
  servers b other running := by
    rw [grants]
    rcases put_cases same running with ⟨rfl, rfl⟩ | ⟨-, was⟩
    · exact good
    · exact inv.servers b other was

/-- The second section of `handle_join`: the member that is recorded has its id on
record. -/
theorem Inv.welcome {k : Nat} {o : Offer} {c : Cluster Address} {since : Nat} (inv : Inv s)
    (offer : o.Good s.grants) (offered : s.joining[k]? = some o)
    (running : s.server o.granter = some ⟨c, since⟩) (named : c.self.id ≠ 0) :
    Inv (s.welcome k o c since) := by
  have good := inv.servers _ _ running
  have stepped : step s (.join k) = some (s.welcome k o c since) := by
    simp only [step, offered, running]
  have admits {fit : ServerAddress → Prop} (known : fit ⟨o.id, o.address.1, o.address.2⟩) :
      Admits fit s (.join k) := by
    intro other waiting
    cases offered.symm.trans waiting
    exact ⟨offer.named, known, _, running, named⟩
  cases fresh : o.fresh with
  | true =>
    have below := offer.fresh fresh
    have grants : (s.welcome k o c since).grants = ⟨o.id, o.address, o.granter⟩ :: s.grants :=
      if_pos fresh
    have sound := (inv.sound.mono fun m => Recorded.cons (g := ⟨o.id, o.address, o.granter⟩)).step
      (admits ⟨_, List.mem_cons_self, rfl, rfl⟩) stepped
    refine ⟨?_, ?_, grants ▸ sound, fun b server found => ?_⟩
    · rw [grants]
      exact List.pairwise_cons.mpr ⟨below, inv.descending⟩
    · rw [grants]
      exact List.forall_mem_cons.mpr ⟨UInt32.pos_iff_ne_zero.mpr offer.named, inv.positive⟩
    · rw [grants]
      rcases put_cases (s := s) rfl found with ⟨rfl, rfl⟩ | ⟨away, was⟩
      · exact good.handOut offer.named below
      · exact (inv.servers b server was).granted (Ne.symm away)
  | false =>
    have recorded := offer.kept fresh
    have grants : (s.welcome k o c since).grants = s.grants :=
      if_neg fun other => Bool.false_ne_true (fresh.symm.trans other)
    exact inv.put (good.addMember inv.positive recorded) rfl grants
      (inv.sound.step (admits recorded) stepped)

theorem Inv.step {label : Label} (inv : Inv s) (joins : Joins s) (informed : Informed s label)
    (stepped : step s label = some s') : Inv s' := by
  have sound (admits : Admits (Recorded s.grants) s label) := inv.sound.step admits stepped
  cases Stepped.of_step stepped with
  | join offered running =>
    have mem := List.mem_of_getElem? offered
    obtain ⟨server, found, named⟩ := joins.granters _ mem
    cases running.symm.trans found
    exact inv.welcome (joins.offers _ mem) offered running named
  | refused running leads out =>
    refine inv.put ?_ rfl rfl (sound trivial)
    rw [(inv.chooses informed running leads).1]
    exact inv.servers _ _ running
  | @chosen p a c since running leads left =>
    have good : Server.Good s.grants p ⟨(c.assignId a.1 a.2).1, since⟩ := by
      rw [(inv.chooses informed running leads).1]
      exact inv.servers _ _ running
    exact inv.put good rfl rfl (sound trivial)
  | @start a absent =>
    have good : Server.Good s.grants a ⟨Cluster.init a.1 a.2, 0⟩ := ⟨Nat.zero_le _, nofun, nofun⟩
    exact inv.put good rfl rfl (sound trivial)
  | attach | announce | inform | suspect | unheard =>
    exact ⟨inv.descending, inv.positive, sound (by trivial), inv.servers⟩
  | @attached k ok p member c since calling running =>
    refine inv.put (a := p) ((inv.servers p _ running).congr fun role => ?_) rfl rfl (sound trivial)
    cases ok <;> exact ⟨role, rfl⟩
  | @perform k a task c since waiting running =>
    have good := inv.servers a _ running
    have after : Server.Good s.grants a ⟨(perform c task).1, since⟩ := by
      cases task with
      | adopt candidate =>
        obtain ⟨server, -, known⟩ := inv.sound.tasks _ (List.mem_of_getElem? waiting)
        exact good.addMember inv.positive known.2
      | follow me leader => exact good.congr nofun
      | announce | reassure | renew | remove | broadcast | tell =>
        exact good.congr fun role => ⟨role, rfl⟩
    exact inv.put after rfl rfl (sound trivial)
  | @heard k sender receiver content c since waiting running =>
    have good := inv.servers receiver _ running
    have after : Server.Good s.grants receiver ⟨(handle c sender content).1, since⟩ := by
      cases content with
      | joinOk id primaryId =>
        dsimp only [handle]
        split
        · exact good.congr nofun
        · exact good
      | attach primary members => exact good.congr nofun
      | membership | coordinator | election => exact good
    exact inv.put after rfl rfl (sound informed)
  | @drop p id c since running linked =>
    have good : Server.Good s.grants p ⟨c.takeLink id, since⟩ :=
      (inv.servers p _ running).congr fun role => ⟨role, rfl⟩
    exact inv.put good rfl rfl (sound trivial)
  | crash =>
    exact ⟨inv.descending, inv.positive, sound trivial, fun b server running =>
      inv.servers b server (crash_cases running).2⟩
  | @elect a c since running backup =>
    have good : Server.Good s.grants a ⟨c.startRound.1, since⟩ :=
      (inv.servers a _ running).congr fun role => ⟨role, rfl⟩
    exact inv.put good rfl rfl (sound trivial)
  | @takeOver a c since running backup =>
    obtain ⟨named, knows⟩ := informed _ running
    have known := inv.sound.servers a _ running
    have good : Server.Good s.grants a ⟨c.becomePrimary.1, s.grants.length⟩ :=
      .becomePrimary inv.descending inv.positive (known.self named) (known.members named) knows
    exact inv.put good rfl rfl (sound fun server found => (informed server found).1)

/-- Nothing but the second section of `handle_join` hands out an id. -/
theorem grants_step {label : Label} (stepped : Ids.step s label = some s') :
    s'.grants = s.grants ∨ ∃ k, label = .join k ∧ k < s.joining.length ∧
      s'.joining = s.joining.eraseIdx k := by
  cases Stepped.of_step stepped with
  | join offered => exact .inr ⟨_, rfl, (List.getElem?_eq_some_iff.mp offered).1, rfl⟩
  | _ => exact .inl rfl

theorem Joins.step {label : Label} (joins : Joins s) (inv : Inv s) (informed : Informed s label)
    (stepped : Ids.step s label = some s') : Joins s' where
  single := by
    cases Stepped.of_step stepped with
    | chosen =>
      have none : s.joining = [] := informed.1
      rw [none]
      exact Nat.le_refl 1
    | join =>
      exact Nat.le_trans (List.length_eraseIdx_le ..) joins.single
    | crash => exact Nat.le_trans (List.length_filter_le ..) joins.single
    | _ => exact joins.single
  offers o mem := by
    rcases grants_step stepped with same | ⟨k, rfl, within, erased⟩
    · rw [same]
      rcases joining_step stepped mem with ⟨old, -⟩ |
        ⟨p, a, c, since, rfl, running, leads, left, rfl⟩
      · exact joins.offers o old
      · exact (inv.chooses informed running leads).2 left
    · -- it was the only one
      have none : s'.joining = [] := by
        rw [erased, ← List.length_eq_zero_iff, List.length_eraseIdx_of_lt within]
        have single := joins.single
        omega
      rw [none] at mem
      cases mem
  granters o mem := by
    rcases joining_step stepped mem with ⟨old, alive⟩ |
      ⟨p, a, c, since, rfl, running, leads, left, rfl⟩
    · obtain ⟨server, running, named⟩ := joins.granters o old
      obtain ⟨server', running', same⟩ := stays_step stepped running named alive
      exact ⟨server', running', same ▸ named⟩
    · have named := (inv.sound.servers p _ running).ranked leads
      obtain ⟨server', running', same⟩ := stays_step stepped running named nofun
      exact ⟨server', running', same ▸ named⟩

end Steps

/-! ## The whole history -/

theorem inv_init (a : Address) : Inv (init a) := by
  have only : ∀ b server, (init a).server b = some server →
      b = a ∧ server = ⟨(Cluster.init a.1 a.2).startAsPrimary, 1⟩ := by
    intro b server running
    dsimp only [init] at running
    rcases update_cases running with ⟨here, same⟩ | ⟨-, ⟨⟩⟩
    exact ⟨here, Option.some.inj same.symm⟩
  have self : Recorded [⟨FIRST_ID, a, a⟩] ⟨FIRST_ID, a.1, a.2⟩ :=
    ⟨_, List.mem_singleton_self _, rfl, rfl⟩
  constructor
  case descending => exact List.pairwise_singleton _ _
  case positive => exact List.forall_mem_singleton.mpr (show (0 : UInt32) < 1000 by decide)
  case sound =>
    refine ⟨fun b server running => ?_, nofun, nofun, nofun⟩
    obtain ⟨rfl, rfl⟩ := only b server running
    exact ⟨rfl, fun _ => self, fun _ m mem => List.mem_singleton.mp mem ▸ self,
      fun id mem => (ExtTreeMap.not_mem_empty mem).elim,
      fun _ => show (1000 : UInt32) ≠ 0 by decide⟩
  case servers =>
    intro b server running
    obtain ⟨rfl, rfl⟩ := only b server running
    refine ⟨Nat.le_refl _, fun _ => show (0 : UInt32) < 1000 by decide, fun _ _ g mem => ?_⟩
    exact List.mem_singleton.mp mem ▸ UInt32.le_refl _

theorem Inv.toDescending {s : State} (inv : Inv s) : Descending s where
  grants := inv.descending
  servers a b server other running found same named := by
    have known := inv.sound.servers a server running
    have known' := inv.sound.servers b other found
    have shared := (known.self named).unique inv.descending (known'.self (same ▸ named)) same
    exact known.address.symm.trans (shared.trans known'.address)

theorem inv_run {a : Address} {labels : List Label} {s : State}
    (informed : Meets step Informed (init a) labels) (ran : run step (init a) labels = some s) :
    Inv s :=
  (run_invariant (I := fun s => Inv s ∧ Joins s)
    (fun _ _ _ ⟨inv, joins⟩ informed stepped =>
      ⟨inv.step joins informed stepped, joins.step inv informed stepped⟩)
    ⟨inv_init a, ⟨Nat.zero_le 1, nofun, nofun⟩⟩ informed ran).1

/-- Ids only go down, and no two running servers hold the same one, in every run
in which servers join one at a time and those that take over and hand out ids know
the lowest. -/
theorem ids_descend {a : Address} {labels : List Label} {s : State}
    (informed : Meets step Informed (init a) labels) (ran : run step (init a) labels = some s) :
    Descending s :=
  (inv_run informed ran).toDescending

section Examples

/-- Four addresses on one host. -/
def port (n : UInt16) : Address := (bytes "h", n)

/-- A second server joins, the primary loses the link to it and tells the first
one; then it crashes, and the first takes over. -/
def dropped : List Label :=
  [.start (port 1), .choose (port 0) (port 1), .join 0, .receive 0, .attach 0, .receive 0,
    .attached 0 true, .start (port 2), .choose (port 0) (port 2), .join 0, .receive 0, .attach 0,
    .receive 0, .attached 0 true, .drop (port 0) 998, .perform 2, .perform 2, .inform 2 999,
    .receive 0, .perform 3, .crash (port 0), .takeOver (port 1), .start (port 3)]

/-- The id of the server that was dropped is handed out again, though servers join
one at a time. -/
theorem handed_out_twice :
    ¬∀ (a : Address) (labels : List Label) (s : State), Meets step OneAtATime (init a) labels →
      run step (init a) labels = some s → Descending s := by
  intro claim
  obtain ⟨s, ran, ids⟩ : ∃ s, run step (init (port 0))
      (dropped ++ [.choose (port 1) (port 3), .join 0]) = some s ∧
        s.grants.map Grant.id = [998, 998, 999, 1000] := ⟨_, rfl, by decide +kernel⟩
  have alone : Meets step OneAtATime (init (port 0))
      (dropped ++ [.choose (port 1) (port 3), .join 0]) :=
    ⟨trivial, rfl, trivial, trivial, trivial, trivial, trivial, trivial, rfl, trivial, trivial,
      trivial, trivial, trivial, trivial, trivial, trivial, trivial, trivial, trivial, trivial,
      trivial, trivial, rfl, trivial, trivial⟩
  have descending := (claim _ _ s alone ran).grants
  have strictly : (s.grants.map Grant.id).Pairwise (· < ·) := List.pairwise_map.mpr descending
  rw [ids] at strictly
  exact absurd strictly (by decide)

/-- One server joins, the primary crashes, the other takes over and hands out
the next id. -/
def handedOn : List Label :=
  [.start (port 1), .choose (port 0) (port 1), .join 0, .receive 0, .attach 0, .receive 0,
    .attached 0 true, .crash (port 0), .takeOver (port 1), .start (port 2),
    .choose (port 1) (port 2), .join 0, .receive 0]

theorem ids_descend_takeOver :
    ∃ s, run step (init (port 0)) handedOn = some s ∧
      s.grants.map Grant.id = [998, 999, 1000] ∧ Descending s := by
  obtain ⟨s, ran, ids⟩ : ∃ s, run step (init (port 0)) handedOn = some s ∧
      s.grants.map Grant.id = [998, 999, 1000] := ⟨_, rfl, by decide +kernel⟩
  refine ⟨s, ran, ids, ids_descend ?_ ran⟩
  refine ⟨trivial, ⟨rfl, ?_⟩, trivial, ?_, trivial, ?_, trivial, trivial, ?_, trivial, ⟨rfl, ?_⟩,
    trivial, ?_, trivial⟩
  · rintro _ ⟨⟩ - g mem
    cases mem
  · rintro _ _ _ _ ⟨⟩
  · rintro _ _ _ _ ⟨⟩
  · rintro _ ⟨⟩
    exact ⟨by decide, fun g first => .inl (by cases first; rfl)⟩
  · rintro _ ⟨⟩ - g mem
    cases mem
  · rintro _ _ _ _ ⟨⟩

end Examples

end SisOp.Ids
