import SisOp.Cluster.State
import SisOp.Lib.Run

/-!
# One server, thread by thread

The threads of one server that run the critical sections of `Cluster`: the
handlers of the messages it receives, the re-attachments of `handle_election`,
`drop_link` after a failed call, and the thread of `run_election`, which is
there once at most. Any of them may move next, a call ends as the environment
likes, and any message may arrive. A broadcast calls the backups one by one and
drops those whose call failed, which ends in a broadcast again; what it tells them
is left out. `attach_replica` counts as one call; that the write mutex lets only
one run at a time is not used.
-/

namespace SisOp.Handlers

open Lib Std

/-- A part of what a handler has to do. `joins` tells `handle_join` from
`handle_election`; `update` is `apply_replicated` on a `Membership` that came over
the current link from the primary. -/
inductive Task where
  | assign (host : Bytes) (port : UInt16)
  | welcome (member : ServerAddress) (joins : Bool)
  | reassure (candidate : ServerAddress)
  | attach (member : ServerAddress) (joins : Bool)
  | abandon (id : UInt32)
  | broadcast
  | tell (todo failed : List UInt32)
  | drop (id : UInt32)
  | remove (id : UInt32)
  | update (members : List ServerAddress)
  deriving DecidableEq

/-- Where the thread of `run_election` is: not there, before a round, with the
members of a round it has not asked yet and whether one answered, in the wait for
an announcement, in `become_primary` with the members it has not attached, or in
the broadcast at the end of that. -/
inductive Phase where
  | idle
  | starting
  | asking (todo : List ServerAddress) (higherAlive : Bool)
  | waiting
  | leading (todo : List ServerAddress)
  | forsaking (id : UInt32) (todo : List ServerAddress)
  | telling (tasks : List Task)
  deriving DecidableEq

/-- A handler is what it still has to do, in turn; one that has ended has nothing. -/
structure State (L : Type) where
  cluster : Cluster L
  election : Phase
  handlers : List (List Task)

/-- How a call ends: `attach_replica` with a link that can go live, another call
with its reply, or not. -/
inductive Outcome (L : Type) where
  | opened (link : L)
  | answered
  | failed

/-- A message or a failure that makes a thread start, or the thread that moves
next, with the end of the call it makes. -/
inductive Label (L : Type) where
  | startAsPrimary
  | joined (id primaryId : UInt32) (host : Bytes) (port : UInt16)
  | handleJoin (host : Bytes) (port : UInt16)
  | handleElection (candidate : ServerAddress)
  | coordinator (leader : ServerAddress)
  | replicaAttach (conn : L) (primary : ServerAddress) (members : List ServerAddress)
  | manifestBuilt
  | membership (conn : L) (members : List ServerAddress)
  | linkClosed (conn : L)
  | dropLink (id : UInt32)
  | startElection
  | task (k : Nat) (outcome : Outcome L)
  | startRound
  | ask (answered : Bool)
  | decide
  | wake
  | lead (outcome : Outcome L)

variable {L : Type}

/-- A server before it starts or joins a cluster. -/
def init (host : Bytes) (port : UInt16) : State L := ⟨Cluster.init host port, .idle, []⟩

/-- `start_election`: `electing_` lets one thread run. -/
def Phase.start : Phase → Phase
  | .idle => .starting
  | phase => phase

/-- The next critical section or call of a handler, and what comes in its place. -/
def stepTask (c : Cluster L) (outcome : Outcome L) : Task → Cluster L × List Task
  | .assign host port =>
    if c.role = .primary then
      let (c, id) := c.assignId host port
      (c, if id = 0 then [] else [.welcome ⟨id, host, port⟩ true])
    else (c, [])
  | .welcome member joins => (c.addMember member, [.attach member joins])
  | .reassure candidate =>
    (c, if candidate.id ∈ c.links then [] else [.welcome candidate false])
  | .attach member joins =>
    match outcome with
    | .opened link => (c.setLink member.id link, [.broadcast])
    | _ => (c, .abandon member.id :: if joins then [.broadcast] else [])
  | .abandon id => (c.removeMember id, [])
  | .broadcast => (c, [.tell (c.links.toList.map Prod.fst) []])
  | .tell [] failed => (c, failed.map .drop)
  | .tell (id :: todo) failed =>
    match outcome with
    | .failed => (c, [.tell todo (failed ++ [id])])
    | _ => (c, [.tell todo failed])
  | .drop id => if id ∈ c.links then (c.takeLink id, [.remove id, .broadcast]) else (c, [])
  | .remove id => (c.removeMember id, [])
  | .update members => (c.setMembers members, [])

/-- A handler starts. -/
def State.arrive (s : State L) (task : Task) : State L :=
  { s with handlers := s.handlers ++ [[task]] }

def step [DecidableEq L] (s : State L) : Label L → Option (State L)
  | .startAsPrimary =>
    if s.cluster.role = .joining ∧ s.election = .idle then
      some { s with cluster := s.cluster.startAsPrimary }
    else none
  | .joined id primaryId host port =>
    if s.cluster.self.id = 0 then
      some { s with cluster := s.cluster.join id primaryId host port }
    else none
  | .handleJoin host port => some (s.arrive (.assign host port))
  | .handleElection candidate =>
    if s.cluster.role = .primary then some (s.arrive (.reassure candidate))
    else some { s with election := s.election.start }
  | .coordinator leader =>
    if leader.id < s.cluster.self.id then some { s with election := s.election.start }
    else some { s with cluster := s.cluster.coordinator leader }
  | .replicaAttach conn primary members =>
    some { s with cluster := s.cluster.replicaAttach conn primary members }
  | .manifestBuilt => some { s with cluster := { s.cluster with buildingManifest := false } }
  | .membership conn members =>
    if s.cluster.primaryLink = some conn then some (s.arrive (.update members)) else some s
  | .linkClosed conn =>
    if s.cluster.primaryLink = some conn then
      some { s with cluster := { s.cluster with primaryLink := none }
                    election := s.election.start }
    else some s
  | .dropLink id => some (s.arrive (.drop id))
  | .startElection => some { s with election := s.election.start }
  | .task k outcome =>
    match s.handlers[k]? with
    | some (task :: rest) =>
      let (cluster, next) := stepTask s.cluster outcome task
      some { s with cluster, handlers := s.handlers.set k (next ++ rest) }
    | _ => none
  | .startRound =>
    if s.election = .starting then
      if s.cluster.role = .primary then some { s with election := .idle }
      else
        let (cluster, higher) := s.cluster.startRound
        some { s with cluster, election := .asking higher false }
    else none
  | .ask answered =>
    match s.election with
    | .asking (_ :: todo) higherAlive =>
      some { s with election := .asking todo (higherAlive || answered) }
    | _ => none
  | .decide =>
    match s.election with
    | .asking [] true => some { s with election := .waiting }
    | .asking [] false =>
      let (cluster, others) := s.cluster.becomePrimary
      some { s with cluster, election := .leading others }
    | _ => none
  | .wake =>
    match s.election with
    | .waiting =>
      some { s with election := if s.cluster.coordinatorSeen then .idle else .starting }
    | _ => none
  | .lead outcome =>
    match s.election with
    | .leading [] => some { s with election := .telling [.broadcast] }
    | .leading (member :: todo) =>
      match outcome with
      | .opened link =>
        some { s with cluster := s.cluster.setLink member.id link, election := .leading todo }
      | _ => some { s with election := .forsaking member.id todo }
    | .forsaking id todo =>
      some { s with cluster := s.cluster.removeMember id, election := .leading todo }
    | .telling [] => some { s with election := .idle }
    | .telling (task :: rest) =>
      let (cluster, next) := stepTask s.cluster outcome task
      some { s with cluster, election := .telling (next ++ rest) }
    | _ => none

end SisOp.Handlers
