import SisOp.Lib.Sections
import Mathlib.Data.Nat.Notation
import Mathlib.Tactic.ByContra

/-!
# The threads of a server and their mutexes

Every place at which a thread of a server process takes or releases a mutex, waits, or sends
or receives something: the threads that serve a connection, the monitor, the health
monitor, and the threads that run an election. What is read under a mutex, and how an
exchange ends, comes as an input, but for the flags that `start_election` and `run_election`
share. Left out are `log_mutex` and `ssl_mutex_`, held for one line and one call,
connections that only one thread knows, and the end of the process.

Main results: `locks_in_order`, the mutexes are taken in the order that `cluster.hpp` gives,
so that no thread waits in vain for one, and nothing is sent or received under `mutex_`;
and `one_election`, a server runs one election at a time and does not sleep through the
message that ends it.
-/

namespace SisOp.Locks

open Lib Lib.Monitors Lib.Sections
open Function (update update_self update_of_ne update_eq_self)

/-- A connection that a client or another server has opened, or that of a link. -/
inductive Conn where
  | served (c : ℕ)
  | link (l : ℕ)
  deriving DecidableEq, Repr

/-- `write_mutex_`, `Link::txn`, `Connection::send_mutex_`, and those of `Cluster`,
`SessionManager`, `HealthMonitor`, `Accounts` and the cache of `Storage`. -/
inductive Mutex where
  | write
  | txn (l : ℕ)
  | send (conn : Conn)
  | cluster | sessions | health | accounts | cache
  deriving DecidableEq, Repr

/-- `coordinator_cv_`. -/
inductive Cv where
  | coordinator
  deriving DecidableEq, Repr

/-- `spawned` counts the threads that `start_election` has made and that have yet to run. -/
structure Data where
  electing : Bool
  spawned : ℕ
  coordinatorSeen : Bool

/-! ## Places -/

inductive Change where
  | account | put | delete

/-- Who calls `attach_replica`: `handle_join`, `handle_election`, or `become_primary` with as
many others left. -/
inductive Attacher where
  | join | reassure
  | elected (left : ℕ)

/-- Where a thread goes on when the links that failed are dropped: to the change it replicates,
to the monitor, to the end of a handler or of an election, or to more links to drop. -/
inductive Rest where
  | change (c : ℕ) (what : Change)
  | heartbeat | handled | elected
  | drops (failed : List ℕ) (rest : Rest)

/-- Who goes through the links: `replicate_account`, `replicate_put` or `replicate_delete`,
`broadcast_membership`, or `heartbeat_links`. -/
inductive Visit where
  | change (c : ℕ) (what : Change)
  | broadcast (rest : Rest)
  | heartbeat

/-- An exchange on a link, in `attach_replica` or with the other links left and those failed. -/
inductive Exchange where
  | attach (a : Attacher) (l : ℕ)
  | visit (v : Visit) (l : ℕ) (left failed : List ℕ)

/-- Who calls `notify_membership`. -/
inductive Teller where
  | broadcast (failed : List ℕ) (rest : Rest)
  | attached (c : ℕ)
  | applied (c : ℕ)

/-- Who calls `Storage::list`, and `Accounts::all`. -/
inductive Lister where
  | request (c : ℕ)
  | attach (a : Attacher)
  | manifest (c : ℕ)

/-- What is sent to the peer, by what comes after it. -/
inductive Reply where
  | refusal | login | request | last
  | done (what : Change)
  | joined | election | coordinator | manifest | replica

inductive Place where
  | start
  | hello (c : ℕ)
  | reply (c : ℕ) (r : Reply)
  -- `serve_client` and `authenticate`
  | login (c : ℕ)
  | redirect (c : ℕ)
  | credentials (c : ℕ)
  | account (c : ℕ)
  | record (c : ℕ)
  | accountAgain (c : ℕ)
  | verify (c : ℕ)
  | ensureUser (c : ℕ)
  | openSession (c : ℕ)
  | loginMembers (c : ℕ)
  | request (c : ℕ)
  | stillPrimary (c : ℕ)
  | handle (c : ℕ)
  | closeSession (c : ℕ)
  -- the changes, under `write_mutex_`
  | writeLock (c : ℕ) (what : Change)
  | create (c : ℕ)
  | makeDirs (c : ℕ)
  | removeFile (c : ℕ)
  | forget (c : ℕ) (what : Change)
  | replaceFile (c : ℕ)
  | writeUnlock (c : ℕ) (what : Change) (done : Bool)
  -- `push_file` and `push_delete`
  | targets (c : ℕ)
  | push (c : ℕ) (targets : List ℕ)
  -- `serve_sync`
  | syncLock (c : ℕ)
  | syncPrimary (c : ℕ)
  | attachSync (c : ℕ)
  | syncError (c : ℕ)
  | syncOk (c : ℕ)
  | problems (c : ℕ)
  | notices (c : ℕ)
  | syncUnlock (c : ℕ) (attached : Bool)
  | syncWait (c : ℕ)
  | detachSync (c : ℕ)
  -- `handle_join`
  | join (c : ℕ)
  | addMember (c : ℕ)
  | joinSelf (c : ℕ)
  -- `Storage::list` and `Accounts::all`
  | list (l : Lister)
  | lookUp (l : Lister)
  | hash (l : Lister)
  | store (l : Lister)
  | all (l : Lister)
  | recordOf (l : Lister)
  -- `attach_replica`
  | attachLock (a : Attacher)
  | connect (a : Attacher)
  | txnLock (a : Attacher) (l : ℕ)
  | attachSelf (a : Attacher) (l : ℕ)
  | attachMembers (a : Attacher) (l : ℕ)
  | publish (a : Attacher) (l : ℕ)
  | txnUnlock (a : Attacher) (l : ℕ) (ok : Bool)
  | attachUnlock (a : Attacher) (ok : Bool)
  | removeMember (a : Attacher)
  -- the links
  | snapshot (v : Visit)
  | visit (v : Visit) (left failed : List ℕ)
  | linkSend (e : Exchange)
  | linkReply (e : Exchange)
  | visitUnlock (v : Visit) (l : ℕ) (left failed : List ℕ)
  | drops (rest : Rest)
  | dropMember (rest : Rest)
  | members (rest : Rest)
  -- `notify_membership` and `push_server_list`
  | listener (t : Teller)
  | tellMembers (t : Teller)
  | tellTargets (t : Teller)
  | tell (t : Teller) (targets : List ℕ)
  -- `handle_election`, `handle_status` and `handle_coordinator`
  | electionPrimary (c : ℕ)
  | linked
  | addCandidate
  | status (c : ℕ)
  | coordinatorSelf
  | coordinatorSet
  | coordinatorNotify
  -- `handle_replica_attach` and `apply_replicated`
  | replicaSet (c : ℕ)
  | replicaNotify (c : ℕ)
  | manifestDone (c : ℕ)
  | replicaWait (c : ℕ)
  | replicaCurrent (c : ℕ)
  | replicaApply (c : ℕ)
  | replicaLock (c : ℕ)
  | replicaStore (c : ℕ)
  | replicaForget (c : ℕ)
  | replicaUnlock (c : ℕ)
  | replicaMembers (c : ℕ)
  | replicaAccount (c : ℕ)
  | replicaEnd (c : ℕ)
  -- `monitor_loop` and `start_election`
  | monitor
  | monitorElecting
  | startElection (monitor : Bool)
  -- `run_election` and `become_primary`
  | round
  | ask
  | waitLock
  | wait
  | waitRead
  | waitUnlock (seen : Bool)
  | becomePrimary
  | announce (a : Attacher) (others : ℕ)
  | announceSelf (a : Attacher) (others : ℕ)
  | announceCall (a : Attacher) (others : ℕ)
  | electionEnd
  -- `HealthMonitor::loop` and `push_notice`
  | healthSelf
  | healthMembers
  | check
  | probe
  | probePrimary
  | note
  | changes
  | noticePrimary
  | noticeTargets
  | notice (targets : List ℕ)
  | reminder
  | ended

/-! ## Inputs -/

/-- What a new thread is for. -/
inductive Job where
  | serve (c : ℕ)
  | monitor | health | election

inductive First where
  | nothing | refused
  | login | syncAttach | join | election | coordinator | replicaAttach | status

inductive Request where
  | reply | last | lost | list
  | upload | delete

inductive Replicated where
  | write | reply | membership | account | lost

inductive Input where
  | none
  | flag (b : Bool)
  | count (n : ℕ)
  | ids (ids : List ℕ)
  | link (l : Option ℕ)
  | job (j : Job)
  | first (m : First)
  | request (r : Request)
  | replicated (m : Replicated)

instance : Inhabited Input := ⟨.none⟩

/-! ## What follows the calls -/

/-- `become_primary` attaches the next backup, or tells all. -/
def nextOther : ℕ → Place
  | 0 => .members .elected
  | left + 1 => .attachLock (.elected left)

/-- What follows `attach_replica`, and its `remove_member` when it failed. -/
def Attacher.after : Attacher → Bool → Place
  | .join, true | .reassure, true => .members .handled
  | .elected left, true => nextOther left
  | a, false => .removeMember a

def Attacher.removed : Attacher → Place
  | .join => .members .handled
  | .reassure => .ended
  | .elected left => nextOther left

/-- What follows `announce_to`. -/
def Attacher.announced : Attacher → ℕ → Place
  | .elected left, 0 => nextOther left
  | .elected left, others + 1 => .announce (.elected left) others
  | _, _ => .linked

/-- What follows the loop through the links. -/
def Visit.after : Visit → List ℕ → Place
  | .change c what, failed => .drops (.drops failed (.change c what))
  | .broadcast rest, failed => .listener (.broadcast failed rest)
  | .heartbeat, failed => .drops (.drops failed .heartbeat)

/-- What follows `notify_membership`. -/
def Teller.after : Teller → Place
  | .broadcast failed rest => .drops (.drops failed rest)
  | .attached c => .list (.manifest c)
  | .applied c => .reply c .replica

/-- What follows `Storage::list`, and `Accounts::all`. -/
def Lister.listed : Lister → Place
  | .request c => .reply c .request
  | l => .all l

def Lister.done : Lister → Place
  | .request c => .reply c .request
  | .attach a => .connect a
  | .manifest c => .manifestDone c

/-- What follows a change, once `write_mutex_` is released. -/
def Change.after (c : ℕ) : Change → Bool → Place
  | .account, true => .ensureUser c
  | .account, false => .accountAgain c
  | what, true => .reply c (.done what)
  | _, false => .reply c .request

/-- What follows a message that was sent, or not. -/
def Reply.after (c : ℕ) : Reply → Bool → Place
  | .refusal, _ => .ended
  | .last, _ => .closeSession c
  | .login, true | .request, true => .request c
  | .done _, true => .targets c
  | .login, false | .request, false | .done _, false => .closeSession c
  | .joined, _ => .attachLock .join
  | .election, _ => .electionPrimary c
  | .coordinator, _ => .coordinatorSelf
  | .manifest, true | .replica, true => .replicaWait c
  | .manifest, false | .replica, false => .replicaEnd c

def First.place (c : ℕ) : First → Place
  | .nothing => .ended
  | .refused => .reply c .refusal
  | .login => .login c
  | .syncAttach => .syncLock c
  | .join => .join c
  | .election => .reply c .election
  | .coordinator => .reply c .coordinator
  | .replicaAttach => .replicaSet c
  | .status => .status c

def Request.place (c : ℕ) : Request → Place
  | .reply => .reply c .request
  | .last => .reply c .last
  | .lost => .closeSession c
  | .list => .list (.request c)
  | .upload => .writeLock c .put
  | .delete => .writeLock c .delete

def Replicated.place (c : ℕ) : Replicated → Place
  | .write => .replicaLock c
  | .reply => .reply c .replica
  | .membership => .replicaMembers c
  | .account => .replicaAccount c
  | .lost => .replicaEnd c

/-! ## The script -/

def Exchange.link : Exchange → ℕ
  | .attach _ l | .visit _ l _ _ => l

/-- The first step of a change. -/
def Change.first (c : ℕ) : Change → Place
  | .account => .create c
  | .put => .makeDirs c
  | .delete => .removeFile c

def does : Place → Doing Data Place Mutex Cv
  | .reply c _ => .brief (.send (.served c))
  | .login _ | .redirect _ | .loginMembers _ | .stillPrimary _ | .syncPrimary _ | .join _
  | .addMember _ | .joinSelf _ | .attachSelf .. | .attachMembers .. | .publish .. | .removeMember _
  | .snapshot _ | .drops (.drops (_ :: _) _) | .dropMember _ | .members _ | .listener _
  | .tellMembers _ | .electionPrimary _ | .linked | .addCandidate | .status _ | .coordinatorSelf
  | .coordinatorSet | .replicaSet _ | .manifestDone _ | .replicaCurrent _ | .replicaMembers _
  | .replicaEnd _ | .monitor | .round | .becomePrimary | .announceSelf .. | .healthSelf
  | .healthMembers | .probePrimary | .noticePrimary => .brief .cluster
  | .openSession _ | .closeSession _ | .targets _ | .attachSync _ | .detachSync _ | .tellTargets _
  | .noticeTargets => .brief .sessions
  | .problems _ | .note | .reminder => .brief .health
  | .account _ | .accountAgain _ | .create _ | .recordOf _ | .replicaAccount _ => .brief .accounts
  | .forget .. | .lookUp _ | .store _ | .replicaForget _ => .brief .cache
  | .push _ (t :: _) | .tell _ (t :: _) | .notice (t :: _) => .brief (.send (.served t))
  | .linkSend e => .brief (.send (.link e.link))
  | .writeLock c what => .takes .write (what.first c)
  | .writeUnlock c what done => .releases .write (what.after c done)
  | .syncLock c => .takes (.send (.served c)) (.syncPrimary c)
  | .syncUnlock c attached =>
    .releases (.send (.served c)) (if attached then .syncWait c else .ended)
  | .attachLock a => .takes .write (.list (.attach a))
  | .attachUnlock a ok => .releases .write (a.after ok)
  | .txnLock a l => .takes (.txn l) (.attachSelf a l)
  | .txnUnlock a l ok => .releases (.txn l) (.attachUnlock a ok)
  | .visit .heartbeat (l :: left) failed =>
    .tries (.txn l) (.linkSend (.visit .heartbeat l left failed)) (.visit .heartbeat left failed)
  | .visit v (l :: left) failed => .takes (.txn l) (.linkSend (.visit v l left failed))
  | .visitUnlock v l left failed => .releases (.txn l) (.visit v left failed)
  | .replicaLock c => .takes .write (.replicaStore c)
  | .replicaUnlock c => .releases .write (.reply c .replica)
  | .coordinatorNotify => .notifies .coordinator .ended
  | .replicaNotify c => .notifies .coordinator (.listener (.attached c))
  | .waitLock => .takes .cluster .wait
  | .wait => .waits .coordinator Data.coordinatorSeen true .waitRead
  | .waitUnlock seen => .releases .cluster (if seen then .electionEnd else .round)
  | .ended => .ends
  | _ => .acts

/-- `serve_client` and `authenticate`. -/
def goesClient : Place → Input → Option Place
  | .hello c, .first m => some (m.place c)
  | .reply c r, .flag sent => some (r.after c sent)
  | .login c, .flag primary => some (if primary then .credentials c else .redirect c)
  | .redirect c, _ => some (.reply c .refusal)
  | .credentials c, .flag ok => some (if ok then .account c else .reply c .refusal)
  | .account c, .flag found => some (if found then .verify c else .record c)
  | .record c, .flag made => some (if made then .writeLock c .account else .accountAgain c)
  | .accountAgain c, .flag found => some (if found then .verify c else .reply c .refusal)
  | .verify c, .flag ok => some (if ok then .ensureUser c else .reply c .refusal)
  | .ensureUser c, .flag ok => some (if ok then .openSession c else .reply c .refusal)
  | .openSession c, .flag ok => some (if ok then .loginMembers c else .reply c .refusal)
  | .loginMembers c, _ => some (.reply c .login)
  | .request c, .flag got => some (if got then .stillPrimary c else .closeSession c)
  | .stillPrimary c, .flag primary => some (if primary then .handle c else .reply c .last)
  | .handle c, .request r => some (r.place c)
  | .closeSession _, _ => some .ended
  | _, _ => none

/-- The changes, and `serve_sync`. -/
def goesChange : Place → Input → Option Place
  | .create c, .flag created =>
    some (if created then .snapshot (.change c .account) else .writeUnlock c .account false)
  | .makeDirs c, .flag ok => some (if ok then .forget c .put else .writeUnlock c .put false)
  | .removeFile c, .flag ok => some (if ok then .forget c .delete else .writeUnlock c .delete false)
  | .forget c .put, _ => some (.replaceFile c)
  | .forget c what, _ => some (.snapshot (.change c what))
  | .replaceFile c, .flag ok =>
    some (if ok then .snapshot (.change c .put) else .writeUnlock c .put false)
  | .targets c, .ids targets => some (.push c targets)
  | .push c [], _ => some (.request c)
  | .push c (_ :: targets), _ => some (.push c targets)
  | .syncPrimary c, .flag primary => some (if primary then .attachSync c else .syncError c)
  | .attachSync c, .flag ok => some (if ok then .syncOk c else .syncError c)
  | .syncError c, _ => some (.syncUnlock c false)
  | .syncOk c, _ => some (.problems c)
  | .problems c, _ => some (.notices c)
  | .notices c, _ => some (.syncUnlock c true)
  | .syncWait c, _ => some (.detachSync c)
  | .detachSync _, _ => some .ended
  | _, _ => none

/-- `handle_join`, `Storage::list`, `Accounts::all` and `attach_replica`. -/
def goesAttach : Place → Input → Option Place
  | .join c, .flag given => some (if given then .addMember c else .reply c .refusal)
  | .addMember c, _ => some (.joinSelf c)
  | .joinSelf c, _ => some (.reply c .joined)
  | .list l, .flag more => some (if more then .lookUp l else l.listed)
  | .lookUp l, .flag hit => some (if hit then .list l else .hash l)
  | .hash l, .flag ok => some (if ok then .store l else .list l)
  | .store l, _ => some (.list l)
  | .all l, .flag more => some (if more then .recordOf l else l.done)
  | .recordOf l, _ => some (.all l)
  | .connect a, .link (some l) => some (.txnLock a l)
  | .connect a, .link none => some (.attachUnlock a false)
  | .attachSelf a l, _ => some (.attachMembers a l)
  | .attachMembers a l, _ => some (.linkSend (.attach a l))
  | .publish a l, _ => some (.txnUnlock a l true)
  | .removeMember a, _ => some a.removed
  | _, _ => none

/-- The links, and `notify_membership`. -/
def goesLinks : Place → Input → Option Place
  | .snapshot v, .ids links => some (.visit v links [])
  | .visit v [] failed, _ => some (v.after failed)
  | .linkSend e, _ => some (.linkReply e)
  | .linkReply (.attach a l), .count 0 => some (.txnUnlock a l false)
  | .linkReply (.attach a l), .count 1 => some (.publish a l)
  | .linkReply (.attach a l), .count _ => some (.linkSend (.attach a l))
  | .linkReply (.visit v l left failed), .flag ok =>
    some (.visitUnlock v l left (if ok then failed else failed ++ [l]))
  | .drops (.change c what), _ => some (.writeUnlock c what true)
  | .drops .heartbeat, _ => some .monitor
  | .drops .handled, _ => some .ended
  | .drops .elected, _ => some .electionEnd
  | .drops (.drops [] rest), _ => some (.drops rest)
  | .drops (.drops (_ :: failed) rest), .flag found =>
    some (if found then .dropMember (.drops failed rest) else .drops (.drops failed rest))
  | .dropMember rest, _ => some (.members rest)
  | .members rest, _ => some (.snapshot (.broadcast rest))
  | .listener t, .flag set => some (if set then .tellMembers t else t.after)
  | .tellMembers t, _ => some (.tellTargets t)
  | .tellTargets t, .ids targets => some (.tell t targets)
  | .tell t [], _ => some t.after
  | .tell t (_ :: targets), _ => some (.tell t targets)
  | _, _ => none

/-- What other servers ask for. -/
def goesPeer : Place → Input → Option Place
  | .electionPrimary _, .flag primary =>
    some (if primary then .announce .reassure 0 else .startElection false)
  | .linked, .flag linked => some (if linked then .ended else .addCandidate)
  | .addCandidate, _ => some (.attachLock .reassure)
  | .status c, _ => some (.reply c .refusal)
  | .coordinatorSelf, .flag outranked =>
    some (if outranked then .startElection false else .coordinatorSet)
  | .manifestDone c, _ => some (.reply c .manifest)
  | .replicaWait c, .flag got => some (if got then .replicaCurrent c else .replicaEnd c)
  | .replicaCurrent c, .flag current => some (if current then .replicaApply c else .replicaEnd c)
  | .replicaApply c, .replicated m => some (m.place c)
  | .replicaStore c, .flag ok => some (if ok then .replicaForget c else .replicaUnlock c)
  | .replicaForget c, _ => some (.replicaUnlock c)
  | .replicaMembers c, _ => some (.listener (.applied c))
  | .replicaAccount c, _ => some (.reply c .replica)
  | .replicaEnd _, .flag lost => some (if lost then .startElection false else .ended)
  | _, _ => none

/-- `monitor_loop`, `run_election` and `become_primary`. -/
def goesElection : Place → Input → Option Place
  -- not primary and not silent, primary, or silent
  | .monitor, .count 0 => some .monitor
  | .monitor, .count 1 => some (.snapshot .heartbeat)
  | .monitor, .count _ => some .monitorElecting
  | .ask, .flag higher => some (if higher then .waitLock else .becomePrimary)
  | .becomePrimary, .count 0 => some (.members .elected)
  | .becomePrimary, .count (others + 1) => some (.announce (.elected (others + 1)) others)
  | .announce a others, .flag connected =>
    some (if connected then .announceSelf a others else a.announced others)
  | .announceSelf a others, _ => some (.announceCall a others)
  | .announceCall a others, _ => some (a.announced others)
  | _, _ => none

/-- `HealthMonitor::loop` and `push_notice`. -/
def goesHealth : Place → Input → Option Place
  | .healthSelf, _ => some .healthMembers
  | .healthMembers, _ => some .check
  -- no server is left, this server, a member, or another
  | .check, .count 0 => some .changes
  | .check, .count 1 => some .check
  | .check, .count 2 => some .note
  | .check, .count _ => some .probe
  | .probe, .flag replied => some (if replied then .probePrimary else .note)
  | .probePrimary, _ => some .note
  | .note, _ => some .check
  -- the end of a round, a change to tell, or a round with a reminder
  | .changes, .count 0 => some .healthSelf
  | .changes, .count 1 => some .noticePrimary
  | .changes, .count _ => some .reminder
  | .noticePrimary, .flag primary => some (if primary then .noticeTargets else .changes)
  | .noticeTargets, .ids targets => some (.notice targets)
  | .notice [], _ => some .changes
  | .notice (_ :: targets), _ => some (.notice targets)
  | .reminder, _ => some .healthSelf
  | _, _ => none

/-- Where a section or an action leads, when the flags of `Data` have no part in it. -/
def goes (p : Place) (a : Input) : Option Place :=
  (goesClient p a).or <| (goesChange p a).or <| (goesAttach p a).or <| (goesLinks p a).or <|
    (goesPeer p a).or <| (goesElection p a).or <| goesHealth p a

def next (p : Place) (d : Data) (a : Input) : Option (Data × Place) :=
  match p, a with
  | .start, .job (.serve c) => some (d, .hello c)
  | .start, .job .monitor => some (d, .monitor)
  | .start, .job .health => some (d, .healthSelf)
  | .start, .job .election =>
    if d.spawned = 0 then none else some ({ d with spawned := d.spawned - 1 }, .round)
  | .coordinatorSet, _ => some ({ d with coordinatorSeen := true }, .coordinatorNotify)
  | .replicaSet c, _ => some ({ d with coordinatorSeen := true }, .replicaNotify c)
  | .monitorElecting, _ => some (d, if d.electing then .monitor else .startElection true)
  | .startElection monitor, _ =>
    some (if d.electing then d else { d with electing := true, spawned := d.spawned + 1 },
      if monitor then .monitor else .ended)
  | .round, .flag true => some (d, .electionEnd)
  | .round, .flag false => some ({ d with coordinatorSeen := false }, .ask)
  | .waitRead, _ => some (d, .waitUnlock d.coordinatorSeen)
  | .electionEnd, _ => some ({ d with electing := false }, .ended)
  | _, _ => (goes p a).map fun q => (d, q)

/-! ## The mutexes held -/

/-- "The server's write mutex, then a link's transaction mutex, then `mutex_`": between the
last two a message is sent, and under none of the others. -/
def rank : Mutex → ℕ
  | .write => 0
  | .txn _ => 1
  | .send _ => 2
  | _ => 3

def Rest.holds : Rest → List Mutex
  | .change .. => [.write]
  | .heartbeat | .handled | .elected => []
  | .drops _ rest => rest.holds

def Visit.holds : Visit → List Mutex
  | .change .. => [.write]
  | .broadcast rest => rest.holds
  | .heartbeat => []

def Exchange.holds : Exchange → List Mutex
  | .attach _ l => [.txn l, .write]
  | .visit v l _ _ => .txn l :: v.holds

def Teller.holds : Teller → List Mutex
  | .broadcast _ rest => rest.holds
  | _ => []

def Lister.holds : Lister → List Mutex
  | .attach _ => [.write]
  | _ => []

/-- The mutexes held before what is done at a place, the last one taken first. -/
def holds : Place → List Mutex
  | .create _ | .makeDirs _ | .removeFile _ | .forget .. | .replaceFile _ | .writeUnlock ..
  | .connect _ | .txnLock .. | .attachUnlock .. | .replicaStore _ | .replicaForget _
  | .replicaUnlock _ => [.write]
  | .syncPrimary c | .attachSync c | .syncError c | .syncOk c | .problems c | .notices c
  | .syncUnlock c _ => [.send (.served c)]
  | .list l | .lookUp l | .hash l | .store l | .all l | .recordOf l => l.holds
  | .attachSelf _ l | .attachMembers _ l | .publish _ l | .txnUnlock _ l _ => [.txn l, .write]
  | .snapshot v | .visit v _ _ => v.holds
  | .visitUnlock v l _ _ => .txn l :: v.holds
  | .linkSend e | .linkReply e => e.holds
  | .drops rest | .dropMember rest | .members rest => rest.holds
  | .listener t | .tellMembers t | .tellTargets t | .tell t _ => t.holds
  | .wait | .waitRead | .waitUnlock _ => [.cluster]
  | _ => []

/-! ## Who runs an election -/

def Attacher.elects : Attacher → Bool
  | .elected _ => true
  | _ => false

def Rest.elects : Rest → Bool
  | .elected => true
  | .drops _ rest => rest.elects
  | _ => false

def Visit.elects : Visit → Bool
  | .broadcast rest => rest.elects
  | _ => false

def Exchange.elects : Exchange → Bool
  | .attach a _ => a.elects
  | .visit v .. => v.elects

def Teller.elects : Teller → Bool
  | .broadcast _ rest => rest.elects
  | _ => false

def Lister.elects : Lister → Bool
  | .attach a => a.elects
  | _ => false

/-- The thread that `start_election` has made, up to its last assignment. -/
def elects : Place → Bool
  | .list l | .lookUp l | .hash l | .store l | .all l | .recordOf l => l.elects
  | .attachLock a | .connect a | .txnLock a _ | .attachSelf a _ | .attachMembers a _ | .publish a _
  | .txnUnlock a .. | .attachUnlock a _ | .removeMember a | .announce a _ | .announceSelf a _
  | .announceCall a _ => a.elects
  | .snapshot v | .visit v .. | .visitUnlock v .. => v.elects
  | .linkSend e | .linkReply e => e.elects
  | .drops rest | .dropMember rest | .members rest => rest.elects
  | .listener t | .tellMembers t | .tellTargets t | .tell t _ => t.elects
  | .round | .ask | .waitLock | .wait | .waitRead | .waitUnlock _ | .becomePrimary
  | .electionEnd => true
  | _ => false

/-! ## What stays -/

/-- The mutexes held, and whether the thread runs an election. -/
def site (p : Place) : List Mutex × Bool := (holds p, elects p)

/-- `run_election` goes on to the next member without a mutex. -/
theorem site_nextOther (left : ℕ) : site (nextOther left) = ([], true) := by
  cases left <;> rfl

/-- After `attach_replica` the write mutex is released, and its caller goes on. -/
theorem site_attached (a : Attacher) (ok : Bool) : site (a.after ok) = ([], a.elects) := by
  cases a with
  | elected left =>
    cases ok
    · rfl
    · exact site_nextOther left
  | _ => cases ok <;> rfl

theorem site_removed (a : Attacher) : site a.removed = ([], a.elects) := by
  cases a with
  | elected left => exact site_nextOther left
  | _ => rfl

theorem site_announced (a : Attacher) (others : ℕ) :
    site (a.announced others) = ([], a.elects) := by
  cases a with
  | elected left =>
    cases others
    · exact site_nextOther left
    · rfl
  | _ => rfl

/-- After the last link the caller of a visit goes on with the mutexes it had. -/
theorem site_visited (v : Visit) (failed : List ℕ) :
    site (v.after failed) = (v.holds, v.elects) := by
  cases v <;> rfl

theorem site_told (t : Teller) : site t.after = (t.holds, t.elects) := by cases t <;> rfl

theorem site_listed (l : Lister) : site l.listed = (l.holds, l.elects) := by cases l <;> rfl

theorem site_done (l : Lister) : site l.done = (l.holds, l.elects) := by cases l <;> rfl

/-- After a change everywhere its handler has released the write mutex. -/
theorem site_changed (c : ℕ) (what : Change) (done : Bool) :
    site (what.after c done) = ([], false) := by
  cases what <;> cases done <;> rfl

/-- Every change is made under the write mutex. -/
theorem site_change (c : ℕ) (what : Change) : site (what.first c) = ([.write], false) := by
  cases what <;> rfl

theorem site_replied (c : ℕ) (r : Reply) (sent : Bool) : site (r.after c sent) = ([], false) := by
  cases r <;> cases sent <;> rfl

theorem site_first (c : ℕ) (m : First) : site (m.place c) = ([], false) := by cases m <;> rfl

theorem site_request (c : ℕ) (r : Request) : site (r.place c) = ([], false) := by cases r <;> rfl

theorem site_replicated (c : ℕ) (m : Replicated) : site (m.place c) = ([], false) := by
  cases m <;> rfl

/-- Both ends of a branch are alike. -/
theorem site_ite {b : Bool} {p q : Place} {l : List Mutex × Bool} (one : site p = l)
    (other : site q = l) : site (if b then p else q) = l := by
  cases b
  · exact other
  · exact one

variable {p q : Place} {d : Data} {a : Input} {r : Data × Place}

/-- Outside its locks a client's thread keeps the mutexes it has, and is in no election. -/
theorem site_goesClient (went : goesClient p a = some q) : site q = site p := by
  unfold goesClient at went
  split at went <;> cases went <;>
    first
    | rfl
    | exact site_ite rfl rfl
    | exact site_first ..
    | exact site_replied ..
    | exact site_request ..

theorem site_goesChange (went : goesChange p a = some q) : site q = site p := by
  unfold goesChange at went
  split at went <;> cases went <;>
    first
    | rfl
    | exact site_ite rfl rfl

/-- Attaching a backup is part of the election of its caller, if there is one. -/
theorem site_goesAttach (went : goesAttach p a = some q) : site q = site p := by
  unfold goesAttach at went
  split at went <;> cases went <;>
    first
    | rfl
    | exact site_ite rfl rfl
    | exact site_ite rfl (site_listed _)
    | exact site_ite rfl (site_done _)
    | exact site_removed _

theorem site_goesLinks (went : goesLinks p a = some q) : site q = site p := by
  unfold goesLinks at went
  split at went <;> cases went <;>
    first
    | rfl
    | exact site_ite rfl rfl
    | exact site_ite rfl (site_told _)
    | exact site_told _
    | exact site_visited ..

theorem site_goesPeer (went : goesPeer p a = some q) : site q = site p := by
  unfold goesPeer at went
  split at went <;> cases went <;>
    first
    | rfl
    | exact site_ite rfl rfl
    | exact site_replicated ..

theorem site_goesElection (went : goesElection p a = some q) : site q = site p := by
  unfold goesElection at went
  split at went <;> cases went <;>
    first
    | rfl
    | exact site_ite rfl rfl
    | exact site_ite rfl (site_announced ..)
    | exact site_announced ..

theorem site_goesHealth (went : goesHealth p a = some q) : site q = site p := by
  unfold goesHealth at went
  split at went <;> cases went <;>
    first
    | rfl
    | exact site_ite rfl rfl

/-- No mutex but that of a section is taken or released, and no election begins or ends. -/
theorem site_goes (went : goes p a = some q) : site q = site p := by
  unfold goes at went
  rcases Option.or_eq_some_iff.mp went with one | ⟨-, went⟩
  · exact site_goesClient one
  rcases Option.or_eq_some_iff.mp went with one | ⟨-, went⟩
  · exact site_goesChange one
  rcases Option.or_eq_some_iff.mp went with one | ⟨-, went⟩
  · exact site_goesAttach one
  rcases Option.or_eq_some_iff.mp went with one | ⟨-, went⟩
  · exact site_goesLinks one
  rcases Option.or_eq_some_iff.mp went with one | ⟨-, went⟩
  · exact site_goesPeer one
  rcases Option.or_eq_some_iff.mp went with one | ⟨-, one⟩
  · exact site_goesElection one
  · exact site_goesHealth one

/-- Steps that share no data keep the mutexes and the election. -/
theorem goes_of_map (went : ((goes p a).map fun q => (d, q)) = some r) :
    r.1 = d ∧ site r.2 = site p := by
  obtain ⟨q, went, is⟩ := Option.map_eq_some_iff.mp went
  rw [← is]
  exact ⟨rfl, site_goes went⟩

/-- What an action does to the flags: nothing, or it begins, starts or ends an election. -/
inductive Changes (d : Data) (p : Place) (d' : Data) (q : Place) : Prop
  | keeps : d'.electing = d.electing → d'.spawned = d.spawned → elects q = elects p →
    Changes d p d' q
  | begins : d.electing = false → elects p = false → elects q = false → d'.electing = true →
    d'.spawned = d.spawned + 1 → Changes d p d' q
  | starts : d.spawned ≠ 0 → elects p = false → elects q = true → d'.electing = d.electing →
    d'.spawned = d.spawned - 1 → Changes d p d' q
  | ends : elects p = true → elects q = false → d'.electing = false → d'.spawned = d.spawned →
    Changes d p d' q

/-- `coordinator_seen_` is set under `mutex_`, and what comes next is the wakeup. -/
def Heralded (d : Data) (p : Place) (d' : Data) (q : Place) : Prop :=
  d'.coordinatorSeen = true → d.coordinatorSeen = true ∨
    does p = .brief .cluster ∧ ∃ q', does q = .notifies .coordinator q'

/-- What a section or an action does. -/
theorem next_spec (went : next p d a = some r) :
    holds r.2 = holds p ∧ Changes d p r.1 r.2 ∧ Heralded d p r.1 r.2 := by
  unfold next at went
  split at went
  case h_4 =>
    by_cases none : d.spawned = 0
    · rw [if_pos none] at went
      cases went
    · rw [if_neg none] at went
      cases went
      exact ⟨rfl, .starts none rfl rfl rfl rfl, .inl⟩
  case h_5 | h_6 =>
    cases went
    exact ⟨rfl, .keeps rfl rfl rfl, fun _ => .inr ⟨rfl, _, rfl⟩⟩
  case h_7 =>
    cases went
    have same : site (if d.electing = true then .monitor else .startElection true) = ([], false) :=
      site_ite rfl rfl
    exact ⟨congrArg Prod.fst same, .keeps rfl rfl (congrArg Prod.snd same), .inl⟩
  case h_8 _ monitor =>
    cases went
    have same : site (if monitor = true then .monitor else .ended) = ([], false) := site_ite rfl rfl
    refine ⟨congrArg Prod.fst same, ?_⟩
    by_cases electing : d.electing = true
    · dsimp only
      rw [if_pos electing]
      exact ⟨.keeps rfl rfl (congrArg Prod.snd same), .inl⟩
    · dsimp only
      rw [if_neg electing]
      exact ⟨.begins (Bool.eq_false_iff.mpr electing) rfl (congrArg Prod.snd same) rfl rfl, .inl⟩
  case h_10 =>
    cases went
    exact ⟨rfl, .keeps rfl rfl rfl, fun seen => by cases seen⟩
  case h_12 =>
    cases went
    exact ⟨rfl, .ends rfl rfl rfl rfl, .inl⟩
  case h_13 =>
    obtain ⟨same, site⟩ := goes_of_map went
    rw [same]
    exact ⟨congrArg Prod.fst site, .keeps rfl rfl (congrArg Prod.snd site), .inl⟩
  all_goals
    cases went
    exact ⟨rfl, .keeps rfl rfl rfl, .inl⟩

/-- The threads of a server, as a script. -/
def server : Script Data Place Mutex Cv Input :=
  ⟨does, next, holds, fun _ => .cluster, fun went => (next_spec went).1⟩

/-- A server with its first threads still to come. -/
def init (τ : Type) : State τ Data server.Point Mutex :=
  Monitors.init ⟨false, 0, false⟩ fun _ => .on .start

/-! ## The order of the mutexes -/

/-- Connections are dropped under the write mutex or under none. -/
theorem Rest.holds_cases (rest : Rest) : rest.holds = [] ∨ rest.holds = [.write] := by
  induction rest with
  | change c what => exact .inr rfl
  | drops failed rest ih => exact ih
  | _ => exact .inl rfl

theorem Visit.holds_cases (v : Visit) : v.holds = [] ∨ v.holds = [.write] := by
  cases v with
  | change c what => exact .inr rfl
  | broadcast rest => exact rest.holds_cases
  | heartbeat => exact .inl rfl

theorem Teller.holds_cases (t : Teller) : t.holds = [] ∨ t.holds = [.write] := by
  cases t with
  | broadcast failed rest => exact rest.holds_cases
  | _ => exact .inl rfl

theorem Lister.holds_cases (l : Lister) : l.holds = [] ∨ l.holds = [.write] := by
  cases l with
  | attach a => exact .inr rfl
  | _ => exact .inl rfl

/-- What is sent to a backup goes under the mutex of its link, and under the write mutex if
it is a change. -/
theorem Exchange.holds_cases (e : Exchange) :
    e.holds = [.txn e.link] ∨ e.holds = [.txn e.link, .write] := by
  cases e with
  | attach a l => exact .inr rfl
  | visit v l left failed => exact v.holds_cases.imp (congrArg _) (congrArg _)

section Below

variable {l : List Mutex} {m : Mutex}

theorem below_nil : ∀ m' ∈ ([] : List Mutex), rank m' < rank m := fun _ mem => by cases mem

/-- `write_mutex_` is the first of all. -/
theorem below_write (outer : l = [] ∨ l = [.write]) (inner : 0 < rank m) :
    ∀ m' ∈ l, rank m' < rank m := by
  rcases outer with rfl | rfl
  · exact below_nil
  · exact List.forall_mem_singleton.mpr inner

/-- Under the send lock of a connection only the mutexes of short sections are taken. -/
theorem below_send {conn : Conn} (inner : 2 < rank m) :
    ∀ m' ∈ [Mutex.send conn], rank m' < rank m :=
  List.forall_mem_singleton.mpr inner

/-- The mutex of a link comes after `write_mutex_` and before the other two kinds. -/
theorem below_txn {link : ℕ} (outer : l = [.txn link] ∨ l = [.txn link, .write])
    (inner : 1 < rank m) : ∀ m' ∈ l, rank m' < rank m := by
  rcases outer with rfl | rfl
  · exact List.forall_mem_singleton.mpr inner
  · exact List.forall_mem_cons.mpr ⟨inner, List.forall_mem_singleton.mpr (Nat.zero_lt_of_lt inner)⟩

/-- A visit holds no link's mutex between two links. -/
theorem txn_not_mem {link : ℕ} (outer : l = [] ∨ l = [.write]) : Mutex.txn link ∉ l := by
  rcases outer with rfl | rfl
  · exact List.not_mem_nil
  · exact fun mem => by cases List.mem_singleton.mp mem

end Below

/-- A mutex is released once, and leaves those taken before it. -/
theorem released {p : Place} {l : List Mutex} {m : Mutex} {b : Bool} (next : site p = (l, b))
    (once : m ∉ l) : m :: l = m :: holds p ∧ m ∉ holds p := by
  rw [show holds p = l from congrArg Prod.fst next]
  exact ⟨rfl, once⟩

/-- At every place the mutexes are taken in their order. -/
theorem ordered (p : Place) : server.Ordered rank p := by
  cases p with
  | reply | login | redirect | loginMembers | stillPrimary | join | addMember | joinSelf
  | removeMember | electionPrimary | linked | addCandidate | status | coordinatorSelf
  | coordinatorSet | replicaSet | manifestDone | replicaCurrent | replicaMembers | replicaEnd
  | monitor | round | becomePrimary | announceSelf | healthSelf | healthMembers | probePrimary
  | noticePrimary | openSession | closeSession | targets | detachSync | noticeTargets | note
  | reminder | account | accountAgain | replicaAccount => exact below_nil
  -- sections under other mutexes
  | syncPrimary | attachSync | problems => exact below_send (by decide)
  | create | forget | replicaForget => exact below_write (.inr rfl) (by decide)
  | attachSelf | attachMembers | publish => exact below_txn (.inr rfl) (by decide)
  | lookUp l | store l | recordOf l => exact below_write l.holds_cases (by decide)
  | snapshot v => exact below_write v.holds_cases (by decide)
  | dropMember rest | members rest => exact below_write rest.holds_cases (by decide)
  | listener t | tellMembers t | tellTargets t => exact below_write t.holds_cases (by decide)
  | linkSend e => exact below_txn e.holds_cases Nat.one_lt_two
  | drops rest =>
    cases rest with
    | drops failed rest =>
      cases failed with
      | nil => trivial
      | cons l failed => exact below_write rest.holds_cases (by decide)
    | _ => trivial
  | push c targets | notice targets =>
    cases targets with
    | nil => trivial
    | cons target targets => exact below_nil
  | tell t targets =>
    cases targets with
    | nil => trivial
    | cons target targets => exact below_write t.holds_cases Nat.two_pos
  -- mutexes taken and released on their own
  | writeLock c what => exact ⟨congrArg Prod.fst (site_change c what), below_nil⟩
  | syncLock | attachLock | replicaLock | waitLock => exact ⟨rfl, below_nil⟩
  | txnLock => exact ⟨rfl, below_write (.inr rfl) Nat.one_pos⟩
  | visit v left failed =>
    cases left with
    | nil => cases v <;> trivial
    | cons l left =>
      cases v with
      | change c what => exact ⟨rfl, below_write (.inr rfl) Nat.one_pos⟩
      | broadcast rest => exact ⟨rfl, below_write rest.holds_cases Nat.one_pos⟩
      | heartbeat => exact ⟨rfl, rfl, List.not_mem_nil⟩
  | writeUnlock c what done => exact released (site_changed c what done) List.not_mem_nil
  | syncUnlock c attached =>
    exact released (l := []) (b := false) (site_ite rfl rfl) List.not_mem_nil
  | attachUnlock a ok => exact released (site_attached a ok) List.not_mem_nil
  | txnUnlock a l ok => exact released (p := .attachUnlock a ok) rfl (txn_not_mem (.inr rfl))
  | visitUnlock v l left failed =>
    exact released (p := .visit v left failed) rfl (txn_not_mem v.holds_cases)
  | replicaUnlock c => exact released (p := .reply c .replica) rfl List.not_mem_nil
  | waitUnlock seen => exact released (l := []) (b := true) (site_ite rfl rfl) List.not_mem_nil
  | coordinatorNotify | replicaNotify | ended => rfl
  | wait => exact ⟨rfl, [], rfl, below_nil, fun _ => rfl⟩
  | _ => trivial

/-- The last in the order are the mutexes of short sections. -/
theorem rank_le (m : Mutex) : rank m ≤ 3 := by
  cases m <;> exact Nat.le_of_ble_eq_true rfl

/-- At every place the source goes on whatever it is given; only locks and waits stop a
thread. -/
theorem prompt (τ : Type) : Prompt (server.program τ) := by
  refine Script.prompt fun p does d => ?_
  cases p with
  | start => exact ⟨.job .monitor, _, rfl⟩
  | hello c => exact ⟨.first .nothing, _, rfl⟩
  | handle c => exact ⟨.request .reply, _, rfl⟩
  | replicaApply c => exact ⟨.replicated .reply, _, rfl⟩
  | connect a => exact ⟨.link none, _, rfl⟩
  | monitor | becomePrimary | check | changes => exact ⟨.count 0, _, rfl⟩
  | targets | snapshot | tellTargets | noticeTargets => exact ⟨.ids [], _, rfl⟩
  | reply | login | credentials | account | record | accountAgain | verify | ensureUser
  | openSession | request | stillPrimary | create | makeDirs | removeFile | replaceFile
  | syncPrimary | attachSync | join | list | lookUp | hash | all | listener | electionPrimary
  | linked | coordinatorSelf | replicaWait | replicaCurrent | replicaStore | replicaEnd | ask
  | announce | probe | noticePrimary | round => exact ⟨.flag false, _, rfl⟩
  | forget c what => cases what <;> exact ⟨.none, _, rfl⟩
  | push c targets | tell t targets | notice targets => cases targets <;> exact ⟨.none, _, rfl⟩
  | linkReply e =>
    cases e with
    | attach a l => exact ⟨.count 0, _, rfl⟩
    | visit v l left failed => exact ⟨.flag false, _, rfl⟩
  | drops rest =>
    cases rest with
    | drops failed rest =>
      cases failed with
      | nil => exact ⟨.none, _, rfl⟩
      | cons l failed => exact ⟨.flag false, _, rfl⟩
    | _ => exact ⟨.none, _, rfl⟩
  | visit v left failed =>
    cases left with
    | nil => exact ⟨.none, _, rfl⟩
    | cons l left => cases v <;> rcases does with is | ⟨m, is⟩ <;> cases is
  | writeLock | writeUnlock | syncLock | syncUnlock | attachLock | attachUnlock | txnLock
  | txnUnlock | visitUnlock | replicaLock | replicaUnlock | coordinatorNotify | replicaNotify
  | waitLock | wait | waitUnlock | ended =>
    rcases does with is | ⟨m, is⟩ <;> cases is
  | _ => exact ⟨.none, _, rfl⟩

/-! ## Sending and receiving -/

/-- Something is sent or received, a connection made or its end waited for. -/
def talks : Place → Bool
  | .hello _ | .reply .. | .request _ | .handle _ | .push _ (_ :: _) | .syncError _ | .syncOk _
  | .notices _ | .syncWait _ | .connect _ | .linkSend _ | .linkReply _ | .tell _ (_ :: _)
  | .replicaWait _ | .replicaApply _ | .ask | .announce .. | .announceCall .. | .probe
  | .notice (_ :: _) => true
  | _ => false

/-- Where something is sent or received no short section is open, and none is opened. -/
theorem talks_spec {p : Place} (talking : talks p = true) :
    (∀ m ∈ holds p, rank m < 3) ∧ ∀ m, does p = .brief m → rank m < 3 := by
  have nothing : (∀ m ∈ ([] : List Mutex), rank m < 3) := fun m mem => by cases mem
  have send : ∀ {conn : Conn} m, Doing.brief (.send conn) = (.brief m : Doing Data Place Mutex Cv) →
      rank m < 3 := fun m is => by cases is; exact Nat.lt_succ_self 2
  have acts : ∀ m, Doing.acts = (.brief m : Doing Data Place Mutex Cv) → rank m < 3 :=
    fun m is => by cases is
  cases p with
  | reply => exact ⟨nothing, send⟩
  | hello | request | handle | syncWait | replicaWait | replicaApply | ask | announce
  | announceCall | probe => exact ⟨nothing, acts⟩
  | push c targets | notice targets =>
    cases targets with
    | nil => cases talking
    | cons target targets => exact ⟨nothing, send⟩
  | tell t targets =>
    cases targets with
    | nil => cases talking
    | cons target targets =>
      exact ⟨below_write (m := .cluster) t.holds_cases (by decide), send⟩
  | syncError | syncOk | notices => exact ⟨below_send (m := .cluster) (by decide), acts⟩
  | connect => exact ⟨below_write (m := .cluster) (.inr rfl) (by decide), acts⟩
  | linkSend e => exact ⟨below_txn (m := .cluster) e.holds_cases (by decide), send⟩
  | linkReply e => exact ⟨below_txn (m := .cluster) e.holds_cases (by decide), acts⟩
  | _ => cases talking

section Run

variable {τ : Type} [DecidableEq τ] {s : State τ Data server.Point Mutex}
  {moves : List (τ × Move Input)}

/-- In every run each thread holds what its place says. -/
theorem held_run (ran : run (step (server.program τ)) (init τ) moves = some s) :
    Held (server.program τ) server.held s :=
  Held.run (Script.fits ordered) (fun _ => rfl) ran

/-- The mutexes held while something is sent or received come before those of short
sections. -/
theorem lower_of_talks {x : server.Point} {m : Mutex} (mem : m ∈ server.held x)
    (talking : talks x.place = true) : rank m < 3 := by
  cases x with
  | on p => exact (talks_spec talking).1 m mem
  | within p m' is | leave p q m' is same =>
    rcases List.mem_cons.mp mem with rfl | outer
    · exact (talks_spec talking).2 m is
    · exact (talks_spec talking).1 m outer

/-- In every order of the steps of a server's threads, while a mutex is held some thread that
holds it or one taken after it can go on, and a thread that sends or receives holds none but
`write_mutex_`, that of a link and that of a connection. -/
theorem locks_in_order (ran : run (step (server.program τ)) (init τ) moves = some s) :
    (∀ m t, s.holder m = some t →
      ∃ m' u, (m' = m ∧ u = t ∨ rank m < rank m') ∧ s.holder m' = some u ∧
        CanMove (server.program τ) s u) ∧
    ∀ m t, s.holder m = some t → talks (s.point t).place = true →
      m = .write ∨ (∃ l, m = .txn l) ∨ ∃ conn, m = .send conn := by
  have locks := held_run ran
  refine ⟨fun m t => ?_, fun m t held talking => ?_⟩
  · exact holder_moves locks (Script.fits ordered) (prompt τ) rank_le
  · have mem : m ∈ server.held (s.point t) := by
      have here := (locks.holder m t).mp held
      rw [State.point]
      cases status : s.status t with
      | running p | drowsy p =>
        rw [status] at here
        exact here
      | asleep p | woken p expired =>
        rw [status] at here
        exact List.mem_of_mem_tail here
    have lower := lower_of_talks mem talking
    cases m with
    | write => exact .inl rfl
    | txn l => exact .inr (.inl ⟨l, rfl⟩)
    | send conn => exact .inr (.inr ⟨conn, rfl⟩)
    | _ => exact absurd lower (by decide)

end Run

/-- The monitor of a primary is about to send a heartbeat, and the thread of a client whose
account is new has created it and waits for the same link. -/
def heartbeat : List (Fin 2 × Move Input) :=
  let go (t : Fin 2) (inputs : List Input) : List (Fin 2 × Move Input) :=
    inputs.map fun a => (t, .go a)
  go 0 [.job .monitor, .none, .count 1, .none, .none, .ids [7], .none, .none] ++
  go 1 [.job (.serve 1), .first .login, .none, .flag true, .none, .flag true, .none, .flag false,
    .none, .flag true, .none, .none, .flag true, .none, .none, .ids [7], .none]

def beating : State (Fin 2) Data server.Point Mutex :=
  (run (step (server.program (Fin 2))) (init (Fin 2)) heartbeat).get (by decide +kernel)

theorem beating_ran :
    run (step (server.program (Fin 2))) (init (Fin 2)) heartbeat = some beating :=
  (Option.some_get _).symm

theorem locks_in_order_of_heartbeat :
    beating.status 1 = .running (.on (.visit (.change 1 .account) [7] [])) ∧
    beating.holder .write = some 1 ∧ beating.holder (.txn 7) = some 0 ∧
    (∃ m' u, (m' = .write ∧ u = 1 ∨ 0 < rank m') ∧ beating.holder m' = some u ∧
      CanMove (server.program (Fin 2)) beating u) ∧
    (Mutex.txn 7 = .write ∨ (∃ l, Mutex.txn 7 = .txn l) ∨ ∃ conn, Mutex.txn 7 = .send conn) := by
  have waits : beating.holder .write = some 1 := by decide +kernel
  have sends : beating.holder (.txn 7) = some 0 := by decide +kernel
  obtain ⟨moves, outer⟩ := locks_in_order beating_ran
  exact ⟨rfl, waits, sends, moves .write 1 waits, outer (.txn 7) 0 sends rfl⟩

/-! ## Elections -/

/-- Locks, waits and wakeups neither begin nor end an election. -/
theorem elects_leads {p q : Place} (leads : server.Leads p q) : elects q = elects p := by
  cases p with
  | writeLock c what =>
    cases leads
    exact congrArg Prod.snd (site_change c what)
  | writeUnlock c what done =>
    cases leads
    exact congrArg Prod.snd (site_changed c what done)
  | attachUnlock a ok =>
    cases leads
    exact congrArg Prod.snd (site_attached a ok)
  | syncUnlock c attached =>
    cases leads
    cases attached <;> rfl
  | waitUnlock seen =>
    cases leads
    cases seen <;> rfl
  | visit v left failed =>
    cases left with
    | nil => cases v <;> cases leads
    | cons l left =>
      cases v with
      | heartbeat => rcases leads with rfl | rfl <;> rfl
      | _ =>
        cases leads
        rfl
  | drops rest =>
    cases rest with
    | drops failed rest => cases failed <;> cases leads
    | _ => cases leads
  | push c targets | tell t targets | notice targets => cases targets <;> cases leads
  | syncLock | attachLock | txnLock | txnUnlock | visitUnlock | replicaLock | replicaUnlock
  | coordinatorNotify | replicaNotify | waitLock | wait =>
    cases leads
    rfl
  | _ => cases leads

/-- At most one thread runs an election, or is about to, and `electing_` says whether. -/
structure One {τ : Type} (electing : Bool) (spawned : ℕ) (runs : τ → Bool) : Prop where
  one : ∀ t u, runs t = true → runs u = true → t = u
  alone : spawned ≠ 0 → spawned = 1 ∧ ∀ t, runs t = false
  flag : electing = true ↔ spawned ≠ 0 ∨ ∃ t, runs t = true

/-- One change of a thread: `electing_` is set by the one that makes the thread of the
election, and cleared at the end of it. -/
theorem One.step {τ : Type} [DecidableEq τ] {d d' : Data} {p q : Place} {runs : τ → Bool} {t : τ}
    (inv : One d.electing d.spawned runs) (here : runs t = elects p) (changes : Changes d p d' q) :
    One d'.electing d'.spawned (update runs t (elects q)) := by
  have quiet : d.electing = false → d.spawned = 0 ∧ ∀ u, runs u = false := by
    intro off
    have none := mt inv.flag.mpr (Bool.eq_false_iff.mp off)
    exact ⟨of_not_not fun some => none (.inl some),
      fun u => Bool.eq_false_iff.mpr fun on => none (.inr ⟨u, on⟩)⟩
  cases changes with
  | keeps electing spawned same =>
    rw [electing, spawned, same, ← here, update_eq_self]
    exact inv
  | begins off before after electing spawned =>
    obtain ⟨zero, none⟩ := quiet off
    rw [electing, spawned, after, ← before, ← here, update_eq_self, zero]
    exact ⟨fun u _ on => absurd on (Bool.eq_false_iff.mp (none u)), fun _ => ⟨rfl, none⟩,
      iff_of_true rfl (.inl Nat.one_ne_zero)⟩
  | starts some before after electing spawned =>
    obtain ⟨one, none⟩ := inv.alone some
    rw [electing, spawned, after, one]
    have is : ∀ u, update runs t true u = true → u = t := by
      intro u on
      by_contra apart
      rw [update_of_ne apart, none u] at on
      cases on
    exact ⟨fun u v on on' => (is u on).trans (is v on').symm, fun more => absurd rfl more,
      iff_of_true (inv.flag.mpr (.inl some)) (.inr ⟨t, update_self ..⟩)⟩
  | ends before after electing spawned =>
    have mine : runs t = true := here.trans before
    have zero : d.spawned = 0 := by
      by_contra some
      cases mine.symm.trans ((inv.alone some).2 t)
    rw [electing, spawned, after, zero]
    have none : ∀ u, update runs t false u ≠ true := by
      intro u on
      by_cases same : u = t
      · rw [same, update_self] at on
        cases on
      · rw [update_of_ne same] at on
        exact same (inv.one u t on mine)
    refine ⟨fun u _ on => absurd on (none u), fun more => absurd rfl more, ?_⟩
    exact iff_of_false Bool.false_ne_true fun on => on.elim (absurd rfl) fun ⟨u, on⟩ => none u on

/-- Where the condition variable is used. -/
theorem does_spec (p : Place) :
    match does p with
    | .waits _ ready _ _ => ready = Data.coordinatorSeen
    | .notifies .. => p = .coordinatorNotify ∨ ∃ c, p = .replicaNotify c
    | _ => True := by
  cases p with
  | wait => rfl
  | coordinatorNotify => exact .inl rfl
  | replicaNotify c => exact .inr ⟨c, rfl⟩
  | drops rest =>
    cases rest with
    | drops failed rest => cases failed <;> trivial
    | _ => trivial
  | push c targets | tell t targets | notice targets => cases targets <;> trivial
  | visit v left failed => cases v <;> cases left <;> trivial
  | _ => trivial

/-- The server waits for nothing but `coordinator_seen_`. -/
theorem ready_of_waits {p q : Place} {c : Cv} {ready : Data → Bool} {timed : Bool}
    (is : does p = .waits c ready timed q) : ready = Data.coordinatorSeen := by
  have spec := does_spec p
  rw [is] at spec
  exact spec

/-- The wakeups are given by `handle_coordinator` and `handle_replica_attach`. -/
theorem place_of_notifies {p q : Place} {c : Cv} (is : does p = .notifies c q) :
    p = .coordinatorNotify ∨ ∃ c, p = .replicaNotify c := by
  have spec := does_spec p
  rw [is] at spec
  exact spec

section Run

variable {τ : Type} [DecidableEq τ] {s s' : State τ Data server.Point Mutex}
  {moves : List (τ × Move Input)}

/-- What the invariant says of a state. -/
def OneElection (s : State τ Data server.Point Mutex) : Prop :=
  One s.data.electing s.data.spawned fun t => elects (s.point t).reached

theorem OneElection.step {move : τ × Move Input} (inv : OneElection s)
    (stepped : step (server.program τ) s move = some s') : OneElection s' := by
  obtain ⟨t, move⟩ := move
  obtain ⟨moved, others⟩ := Script.place_step stepped
  have runs : (fun u => elects (s'.point u).reached) =
      update (fun u => elects (s.point u).reached) t (elects (s'.point t).reached) := by
    funext u
    by_cases same : u = t
    · rw [same, update_self]
    · rw [update_of_ne same, others u same]
  rw [OneElection, runs]
  refine One.step inv rfl ?_
  rcases moved with ⟨a, went⟩ | ⟨data, stays | leads⟩
  · exact (next_spec went).2.1
  · exact .keeps (by rw [data]) (by rw [data]) (by rw [stays])
  · exact .keeps (by rw [data]) (by rw [data]) (elects_leads leads)

/-- At every moment of a run there is one election at most. -/
theorem oneElection_run (ran : run (step (server.program τ)) (init τ) moves = some s) :
    OneElection s := by
  refine run_invariant_of_step (fun _ _ _ inv stepped => inv.step stepped) ?_ ran
  have none : ∀ t : τ, elects ((init τ).point t).reached ≠ true := fun _ => Bool.false_ne_true
  exact ⟨fun t _ on => absurd on (none t), fun more => absurd rfl more,
    iff_of_false Bool.false_ne_true fun on => on.elim (absurd rfl) fun ⟨t, on⟩ => none t on⟩

/-- At most one thread runs an election, and `electing_` is set while it does or has yet to
start; and none sleeps through the message of a new primary: while it sleeps with
`coordinator_seen_` set, a handler is about to wake it. -/
theorem one_election (ran : run (step (server.program τ)) (init τ) moves = some s) :
    (∀ t u, elects (s.point t).reached = true → elects (s.point u).reached = true → t = u) ∧
    (s.data.spawned ≠ 0 → s.data.spawned = 1 ∧ ∀ t, elects (s.point t).reached = false) ∧
    (s.data.electing = true ↔ s.data.spawned ≠ 0 ∨ ∃ t, elects (s.point t).reached = true) ∧
    ∀ t x, s.status t = .asleep x → s.data.coordinatorSeen = true →
      ∃ u y, s.status u = .running y ∧
        (y.reached = .coordinatorNotify ∨ ∃ c, y.reached = .replicaNotify c) := by
  obtain ⟨one, alone, flag⟩ := oneElection_run ran
  refine ⟨one, alone, flag, fun t x asleep seen => ?_⟩
  have owed : Owed (server.program τ) (fun _ d => d.coordinatorSeen) server.debt s := by
    refine Owed.run (Script.fits ordered) (Script.pays (fun _ => Data.coordinatorSeen) ?_ ?_)
      (fun _ => rfl) ran
    · intro w c ready timed q d waits seen
      rw [ready_of_waits waits]
      exact seen
    · intro p d a r went w c ready timed q waits missing there
      cases c
      rcases (next_spec went).2.2 there with before | wakes
      · cases missing.symm.trans before
      · exact wakes
  obtain ⟨c, ready, timed, q, code⟩ := (held_run ran).waits t x (by rw [asleep]; rfl)
  obtain ⟨u, y, running, owes⟩ := owed.asleep t x c ready timed q asleep code seen
  obtain ⟨r, notifies⟩ := Script.notifies_of_owes owes
  exact ⟨u, y, running, place_of_notifies notifies⟩

end Run

/-- Thread 0 runs the election that thread 1 was asked for, and sleeps; thread 2 hears of the
new primary. -/
def hears : List (Fin 3 × Move Input) :=
  let go (t : Fin 3) (inputs : List Input) : List (Fin 3 × Move Input) :=
    inputs.map fun a => (t, .go a)
  go 1 [.job (.serve 1), .first .election, .none, .flag true, .none, .none, .flag false, .none,
    .none] ++
  go 0 [.job .election, .none, .flag false, .none, .flag true, .none, .none, .none] ++
  go 2 [.job (.serve 2), .first .coordinator, .none, .flag true, .none, .none, .flag false, .none,
    .none, .none]

def heard : State (Fin 3) Data server.Point Mutex :=
  (run (step (server.program (Fin 3))) (init (Fin 3)) hears).get (by decide +kernel)

theorem heard_ran : run (step (server.program (Fin 3))) (init (Fin 3)) hears = some heard :=
  (Option.some_get _).symm

theorem one_election_of_coordinator :
    ∃ u y, heard.status u = .running y ∧
      (y.reached = .coordinatorNotify ∨ ∃ c, y.reached = .replicaNotify c) :=
  (one_election heard_ran).2.2.2 0 (.on .wait) rfl (by decide +kernel)

end SisOp.Locks
