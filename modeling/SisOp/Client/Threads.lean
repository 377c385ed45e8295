import SisOp.Client.Reconcile
import SisOp.Lib.Monitors

/-!
# The threads of the client

The main thread with the user's commands and `shutdown`, the supervisor, the worker and the
watcher, with the mutexes and condition variables through which they meet: every place at
which one of them takes, releases or waits for something is a point of its own. What the
exchanges and the comparisons of files do is left to the modules about them; here they
end in one way or another. The mutexes of a connection, of the log and of the output, each
held for one call, are not modelled.

Main results: `waits_end`, no thread waits in vain for a mutex or sleeps through what it
waits for; and `shutdown_ends`, once `stopping_` is set no thread is left waiting, and each
makes only so many more steps.
-/

namespace SisOp.Threads

open Lib Lib.Monitors

inductive Thread where
  | main | supervisor | worker | watcher
  deriving DecidableEq, Repr

/-- `sync_mutex_`, `cmd_mutex_`, `state_mutex_` and `queue_mutex_`. -/
inductive Mutex where
  | sync | cmd | state | queue
  deriving DecidableEq, Repr

/-- `state_cv_` and `queue_cv_`. -/
inductive Cv where
  | state | queue
  deriving DecidableEq, Repr

/-- `cmd` numbers the connections of the supervisor; `closed` is the flag of the watcher.
`unseen` and `unsent` only record: the paths reported since they were last looked at, and
those whose upload or deletion has failed since all files were last compared. -/
structure Data where
  stopping : Bool
  connected : Bool
  cmd : ℕ
  queue : List Bytes
  closed : Bool
  unseen : List Bytes
  unsent : List Bytes

/-! ## Where a thread is -/

/-- Who calls `reconcile`. -/
inductive Caller where
  | supervisor (cmd : ℕ)
  | cmdSync

/-- Who calls `transact`: a command, `reconcile` for its list or a name, with as many names
left, or `sync_local_change`, with the names `rescan_local` has left. -/
inductive Exchange where
  | command
  | list (caller : Caller)
  | name (caller : Caller) (left : ℕ)
  | change (name : Bytes) (rest : List Bytes)

/-- Who calls `wait_for_connection`. -/
inductive Waiter where
  | transact (e : Exchange)
  | cmdSync
  | worker (name : Bytes)

/-- Who calls `mark_disconnected`. -/
inductive Marker where
  | transact (e : Exchange)
  | supervisor
  | shutdown

inductive Point where
  | commandLoop
  -- `wait_for_connection`
  | waitLock (w : Waiter)
  | wait (w : Waiter)
  | waitRead (w : Waiter)
  | waitUnlock (w : Waiter) (cmd : Option ℕ)
  -- `transact`
  | cmdLock (e : Exchange) (cmd : ℕ)
  | exchange (e : Exchange) (cmd : ℕ)
  | cmdUnlock (e : Exchange) (cmd : ℕ) (result : CallResult)
  -- `mark_disconnected`
  | markLock (m : Marker) (cmd : Option ℕ)
  | mark (m : Marker) (cmd : Option ℕ)
  | markUnlock (m : Marker) (dropped : Bool)
  | markNotify (m : Marker)
  -- `reconcile`
  | reconcileLock (c : Caller)
  | pickNames (c : Caller)
  | names (c : Caller) (left : ℕ)
  | reconcileUnlock (c : Caller) (ok : Bool)
  -- `worker_loop`
  | workerLock
  | workerWait
  | workerTake
  | workerUnlock (name : Option Bytes)
  -- `rescan_local`
  | rescanLock
  | rescan
  | rescanUnlock (names : List Bytes)
  -- `sync_local_change`
  | changeLock (name : Bytes) (rest : List Bytes)
  | change (name : Bytes) (rest : List Bytes)
  | changeDone (name : Bytes) (rest : List Bytes) (failed : Bool)
  | changeUnlock (rest : List Bytes)
  -- `supervisor_loop`, `reconnect` and `connect_once`
  | supervisorTop (first : Bool)
  | reconnect
  | candidatesLock
  | candidatesUnlock
  | connect
  | connectLock
  | connectSet
  | connectUnlock
  | connectNotify
  | pauseLock
  | pause
  | pauseUnlock
  | takeLock
  | take
  | takeUnlock (cmd : ℕ)
  -- `receive_loop` and `ping`
  | receive (cmd : ℕ)
  | pushLock (cmd : ℕ)
  | push (cmd : ℕ)
  | pushUnlock (cmd : ℕ)
  | serversLock (cmd : ℕ)
  | serversUnlock (cmd : ℕ)
  | pingDue (cmd : ℕ)
  | pingTry (cmd : ℕ)
  | pingStateLock (cmd : ℕ)
  | pingState (cmd : ℕ)
  | pingStateUnlock (cmd : ℕ) (conn : Option ℕ)
  | ping (cmd : ℕ)
  | pingUnlock (cmd : ℕ) (ok : Bool)
  | checkLock (cmd : ℕ)
  | check (cmd : ℕ)
  | checkUnlock (cmd : ℕ) (connected : Bool)
  -- `shutdown`
  | stop
  | stopLock
  | stopRead
  | stopUnlock (cmd : Option ℕ)
  | logoutLock
  | logout
  | logoutUnlock
  | notifyState
  | queueLock
  | queueUnlock
  | notifyQueue
  | stopWatcher
  | joinWatcher
  | joinSupervisor
  | joinWorker
  | ended
  -- the loop of the watcher, with as many events left of those read, and `enqueue`
  | watch
  | poll
  | events (left : ℕ)
  | enqueueLock (name : Bytes) (left : ℕ)
  | enqueue (name : Bytes) (left : ℕ)
  | enqueueUnlock (left : ℕ) (added : Bool)
  | enqueueNotify (left : ℕ)

/-! ## What comes from outside -/

inductive Command where
  | exchange | sync | other | exit

/-- What `recv` brings: nothing in time, the end of the connection or a message that is not
understood, a file or deletion, the servers, or anything else. -/
inductive Received where
  | nothing | closed | files | servers | other

inductive Input where
  | none
  | command (c : Command)
  | result (r : CallResult)
  | received (r : Received)
  | flag (b : Bool)
  | count (n : ℕ)
  | names (names : List Bytes)
  | name (name : Option Bytes)

instance : Inhabited Input := ⟨.none⟩

abbrev Code := Instr Thread Data Point Mutex Cv Input

/-! ## The program -/

def Waiter.timed : Waiter → Bool
  | .worker _ => false
  | _ => true

/-- What follows `transact`. -/
def Exchange.after : Exchange → CallResult → Point
  | .command, _ => .commandLoop
  | .list c, .ok => .pickNames c
  | .list c, r => .reconcileUnlock c (r != .failed)
  | .name c _, .failed => .reconcileUnlock c false
  | .name c left, _ => .names c left
  | .change path rest, r => .changeDone path rest (r == .failed)

/-- What follows `wait_for_connection`. -/
def Waiter.after : Waiter → Option ℕ → Point
  | .transact e, .some cmd => .cmdLock e cmd
  | .transact e, .none => e.after .failed
  | .cmdSync, .some _ => .reconcileLock .cmdSync
  | .cmdSync, .none => .commandLoop
  | .worker name, .some _ => if name = [] then .rescanLock else .changeLock name []
  | .worker _, .none => .workerLock

/-- What follows `mark_disconnected`. -/
def Marker.after : Marker → Point
  | .transact e => e.after .failed
  | .supervisor => .supervisorTop false
  | .shutdown => .notifyState

/-- What follows `reconcile`. -/
def Caller.after : Caller → Bool → Point
  | .supervisor cmd, true => .receive cmd
  | .supervisor cmd, false => .markLock .supervisor (some cmd)
  | .cmdSync, _ => .commandLoop

/-- The next name of `rescan_local`. -/
def nextChange : List Bytes → Point
  | [] => .workerLock
  | name :: rest => .changeLock name rest

/-- An action that changes nothing the threads share. -/
def look (f : Data → Input → Option Point) : Code := .act fun d a => (f d a).map fun p => (d, p)

/-- At most `most` files are found in `sync_dir` and on the server, and events in one read. -/
def code (most : ℕ) : Point → Code
  | .commandLoop => look fun d a =>
    if d.stopping then some .stop
    else
      match a with
      | .command .exchange => some (.waitLock (.transact .command))
      | .command .sync => some (.waitLock .cmdSync)
      | .command .other => some .commandLoop
      | .command .exit => some .stop
      | _ => none
  | .waitLock w => .lock .state (.wait w)
  | .wait w => .wait .state (fun d => d.connected || d.stopping) w.timed (.waitRead w)
  | .waitRead w => look fun d _ =>
    some (.waitUnlock w (if d.connected && !d.stopping then some d.cmd else none))
  | .waitUnlock w cmd => .unlock .state (w.after cmd)
  | .cmdLock e cmd => .lock .cmd (.exchange e cmd)
  | .exchange e cmd => look fun _ a =>
    match a with
    | .result r => some (.cmdUnlock e cmd r)
    | _ => none
  | .cmdUnlock e cmd r => .unlock .cmd
    (if r = .failed then .markLock (.transact e) (some cmd) else e.after r)
  | .markLock m cmd => .lock .state (.mark m cmd)
  | .mark m cmd => .act fun d _ =>
    if !d.connected || cmd.any (· != d.cmd) then some (d, .markUnlock m false)
    else some ({ d with connected := false }, .markUnlock m true)
  | .markUnlock m dropped => .unlock .state (if dropped then .markNotify m else m.after)
  | .markNotify m => .notify .state m.after
  | .reconcileLock c => .lock .sync (.waitLock (.transact (.list c)))
  | .pickNames c => look fun _ a =>
    match a with
    | .count n => if n ≤ most then some (.names c n) else none
    | _ => none
  | .names c 0 => .act fun d _ => some ({ d with unsent := [] }, .reconcileUnlock c true)
  | .names c (left + 1) => look fun _ a =>
    match a with
    | .flag true => some (.waitLock (.transact (.name c left)))
    | .flag false => some (.names c left)
    | _ => none
  | .reconcileUnlock c ok => .unlock .sync (c.after ok)
  | .workerLock => .lock .queue .workerWait
  | .workerWait => .wait .queue (fun d => d.stopping || !d.queue.isEmpty) false .workerTake
  | .workerTake => .act fun d _ =>
    if d.stopping then some (d, .workerUnlock none)
    -- there is a name, since the wait is over
    else some ({ d with queue := d.queue.tail }, .workerUnlock (some (d.queue.headD [])))
  | .workerUnlock (some name) => .unlock .queue (.waitLock (.worker name))
  | .workerUnlock none => .unlock .queue .ended
  | .rescanLock => .lock .sync .rescan
  | .rescan => .act fun d a =>
    match a with
    | .names names =>
      if names.length ≤ most then
        some ({ d with unseen := names ++ d.unseen.filter (· ≠ []) }, .rescanUnlock names)
      else none
    | _ => none
  | .rescanUnlock names => .unlock .sync (nextChange names)
  | .changeLock name rest => .lock .sync (.change name rest)
  | .change name rest => .act fun d a =>
    match a with
    | .flag differs =>
      some ({ d with unseen := d.unseen.filter (· ≠ name) },
        if differs then .waitLock (.transact (.change name rest)) else .changeUnlock rest)
    | _ => none
  | .changeDone name rest failed => .act fun d _ =>
    some (if failed then { d with unsent := name :: d.unsent } else d, .changeUnlock rest)
  | .changeUnlock rest => .unlock .sync (nextChange rest)
  | .supervisorTop first => look fun d _ =>
    some (if d.stopping then .ended else if first then .takeLock else .reconnect)
  | .reconnect => look fun d _ => some (if d.stopping then .ended else .candidatesLock)
  | .candidatesLock => .lock .state .candidatesUnlock
  | .candidatesUnlock => .unlock .state .connect
  | .connect => look fun _ a =>
    match a with
    | .flag true => some .connectLock
    | .flag false => some .pauseLock
    | _ => none
  | .connectLock => .lock .state .connectSet
  | .connectSet => .act fun d _ =>
    some ({ d with connected := true, cmd := d.cmd + 1 }, .connectUnlock)
  | .connectUnlock => .unlock .state .connectNotify
  | .connectNotify => .notify .state .takeLock
  | .pauseLock => .lock .state .pause
  | .pause => .wait .state (fun d => d.stopping) true .pauseUnlock
  | .pauseUnlock => .unlock .state .reconnect
  | .takeLock => .lock .state .take
  | .take => look fun d _ => some (.takeUnlock d.cmd)
  | .takeUnlock cmd => .unlock .state (.reconcileLock (.supervisor cmd))
  | .receive cmd => look fun d a =>
    if d.stopping then some (.markLock .supervisor (some cmd))
    else
      match a with
      | .received .nothing | .received .other => some (.pingDue cmd)
      | .received .closed => some (.markLock .supervisor (some cmd))
      | .received .files => some (.pushLock cmd)
      | .received .servers => some (.serversLock cmd)
      | _ => none
  | .pushLock cmd => .lock .sync (.push cmd)
  | .push cmd => look fun _ _ => some (.pushUnlock cmd)
  | .pushUnlock cmd => .unlock .sync (.pingDue cmd)
  | .serversLock cmd => .lock .state (.serversUnlock cmd)
  | .serversUnlock cmd => .unlock .state (.pingDue cmd)
  | .pingDue cmd => look fun _ a =>
    match a with
    | .flag due => some (if due then .pingTry cmd else .checkLock cmd)
    | _ => none
  | .pingTry cmd => .tryLock .cmd (.pingStateLock cmd) (.checkLock cmd)
  | .pingStateLock cmd => .lock .state (.pingState cmd)
  | .pingState cmd => look fun d _ =>
    some (.pingStateUnlock cmd (if d.connected then some d.cmd else none))
  | .pingStateUnlock cmd conn => .unlock .state
    (if conn.isSome then .ping cmd else .pingUnlock cmd false)
  | .ping cmd => look fun _ a =>
    match a with
    | .result r => some (.pingUnlock cmd (r == .ok))
    | _ => none
  | .pingUnlock cmd ok => .unlock .cmd
    (if ok then .checkLock cmd else .markLock .supervisor (some cmd))
  | .checkLock cmd => .lock .state (.check cmd)
  | .check cmd => look fun d _ => some (.checkUnlock cmd d.connected)
  | .checkUnlock cmd connected => .unlock .state
    (if connected then .receive cmd else .markLock .supervisor (some cmd))
  | .stop => .act fun d _ =>
    some (if d.stopping then (d, .ended) else ({ d with stopping := true }, .stopLock))
  | .stopLock => .lock .state .stopRead
  | .stopRead => look fun d _ => some (.stopUnlock (if d.connected then some d.cmd else none))
  | .stopUnlock cmd => .unlock .state (if cmd.isSome then .logoutLock else .markLock .shutdown none)
  | .logoutLock => .lock .cmd .logout
  | .logout => look fun _ _ => some .logoutUnlock
  | .logoutUnlock => .unlock .cmd (.markLock .shutdown none)
  | .notifyState => .notify .state .queueLock
  | .queueLock => .lock .queue .queueUnlock
  | .queueUnlock => .unlock .queue .notifyQueue
  | .notifyQueue => .notify .queue .stopWatcher
  | .stopWatcher => .act fun d _ => some ({ d with closed := true }, .joinWatcher)
  | .joinWatcher => .join .watcher .joinSupervisor
  | .joinSupervisor => .join .supervisor .joinWorker
  | .joinWorker => .join .worker .ended
  | .ended => .halt
  | .watch => look fun d _ => some (if d.closed then .ended else .poll)
  | .poll => look fun _ a =>
    match a with
    | .count n => if n ≤ most then some (.events n) else none
    | _ => none
  | .events 0 => look fun _ _ => some .watch
  | .events (left + 1) => look fun _ a =>
    match a with
    | .name (some name) => some (.enqueueLock name left)
    | .name none => some (.events left)
    -- the sync directory itself is gone
    | .received .closed => some .ended
    | _ => none
  | .enqueueLock name left => .lock .queue (.enqueue name left)
  | .enqueue name left => .act fun d _ =>
    if name ∈ d.queue then some ({ d with unseen := name :: d.unseen }, .enqueueUnlock left false)
    else some ({ d with queue := d.queue ++ [name], unseen := name :: d.unseen },
      .enqueueUnlock left true)
  | .enqueueUnlock left added =>
      .unlock .queue (if added then .enqueueNotify left else .events left)
  -- `notify_one`: only the worker waits
  | .enqueueNotify left => .notify .queue (.events left)

def guard : Cv → Mutex
  | .state => .state
  | .queue => .queue

def program (most : ℕ) : Program Thread Data Point Mutex Cv Input := ⟨code most, guard⟩

def entry : Thread → Point
  | .main => .commandLoop
  | .supervisor => .supervisorTop true
  | .worker => .workerLock
  | .watcher => .watch

/-- The threads start when the first connection is there. -/
def start : State Thread Data Point Mutex := init ⟨false, true, 1, [], false, [], []⟩ entry

/-! ## The mutexes -/

/-- The order in which the mutexes are taken. -/
def rank : Mutex → ℕ
  | .sync => 0
  | .cmd => 1
  | .state => 2
  | .queue => 3

def Exchange.holds : Exchange → List Mutex
  | .command => []
  | _ => [.sync]

def Waiter.holds : Waiter → List Mutex
  | .transact e => e.holds
  | _ => []

def Marker.holds : Marker → List Mutex
  | .transact e => e.holds
  | _ => []

/-- The mutexes held at a point, the last one taken first. -/
def holds : Point → List Mutex
  | .waitLock w => w.holds
  | .wait w | .waitRead w | .waitUnlock w _ => .state :: w.holds
  | .cmdLock e _ => e.holds
  | .exchange e _ | .cmdUnlock e _ _ => .cmd :: e.holds
  | .markLock m _ | .markNotify m => m.holds
  | .mark m _ | .markUnlock m _ => .state :: m.holds
  | .pickNames _ | .names .. | .reconcileUnlock .. | .rescan | .rescanUnlock _
  | .change .. | .changeDone .. | .changeUnlock _ | .push _ | .pushUnlock _ => [.sync]
  | .workerWait | .workerTake | .workerUnlock _ | .queueUnlock
  | .enqueue .. | .enqueueUnlock .. => [.queue]
  | .candidatesUnlock | .connectSet | .connectUnlock | .pause | .pauseUnlock | .take
  | .takeUnlock _ | .serversUnlock _ | .check _ | .checkUnlock .. | .stopRead | .stopUnlock _ =>
      [.state]
  | .pingStateLock _ | .ping _ | .pingUnlock .. | .logout | .logoutUnlock => [.cmd]
  | .pingState _ | .pingStateUnlock .. => [.state, .cmd]
  | _ => []

section Mutexes

variable {most : ℕ}

/-- `transact` returns with the mutexes of its caller. -/
@[simp] theorem holds_exchange_after (e : Exchange) (r : CallResult) :
    holds (e.after r) = e.holds := by
  cases e <;> cases r <;> rfl

/-- `wait_for_connection` releases what it takes. -/
@[simp] theorem holds_waiter_after (w : Waiter) (cmd : Option ℕ) :
    holds (w.after cmd) = w.holds := by
  cases w <;> cases cmd
  · exact holds_exchange_after ..
  · rfl
  · rfl
  · rfl
  · rfl
  · rw [Waiter.after]
    split <;> rfl

@[simp] theorem holds_marker_after (m : Marker) : holds m.after = m.holds := by
  cases m with
  | transact e => exact holds_exchange_after ..
  | _ => rfl

@[simp] theorem holds_caller_after (c : Caller) (ok : Bool) : holds (c.after ok) = [] := by
  cases c <;> cases ok <;> rfl

@[simp] theorem holds_nextChange (names : List Bytes) : holds (nextChange names) = [] := by
  cases names <;> rfl

/-- `transact` is called under `sync_mutex_`, or under nothing. -/
theorem exchange_holds (e : Exchange) : e.holds = [] ∨ e.holds = [.sync] := by
  cases e
  · exact .inl rfl
  all_goals exact .inr rfl

theorem waiter_holds (w : Waiter) : w.holds = [] ∨ w.holds = [.sync] := by
  cases w with
  | transact e => exact exchange_holds e
  | _ => exact .inl rfl

theorem marker_holds (m : Marker) : m.holds = [] ∨ m.holds = [.sync] := by
  cases m with
  | transact e => exact exchange_holds e
  | _ => exact .inl rfl

/-- Looking changes nothing. -/
theorem look_eq_some {f : Data → Input → Option Point} {d : Data} {a : Input} {r : Data × Point}
    (acted : ((f d a).map fun p => (d, p)) = some r) : r.1 = d ∧ f d a = some r.2 := by
  obtain ⟨p, went, rfl⟩ := Option.map_eq_some_iff.mp acted
  exact ⟨rfl, went⟩

theorem went_of_look {p : Point} {g : Data → Input → Option Point}
    {f : Data → Input → Option (Data × Point)} {d : Data} {a : Input} {r : Data × Point}
    (is : code most p = look g) (act : (program most).code p = .act f) (acted : f d a = some r) :
    r.1 = d ∧ g d a = some r.2 := by
  cases is.symm.trans act
  exact look_eq_some acted

/-- What changes nothing fits where the next point holds the same mutexes. -/
theorem fits_look {p : Point} {f : Data → Input → Option Point} (is : code most p = look f)
    (same : ∀ d a q, f d a = some q → holds q = holds p) : Fits (program most) rank holds p := by
  rw [Fits, show (program most).code p = .act _ from is]
  intro d a r acted
  exact same d a r.2 (look_eq_some acted).2

theorem fits_act {p : Point} {f : Data → Input → Option (Data × Point)} (is : code most p = .act f)
    (same : ∀ d a r, f d a = some r → holds r.2 = holds p) : Fits (program most) rank holds p := by
  rw [Fits, show (program most).code p = .act f from is]
  exact same

/-- `sync_mutex_` and `cmd_mutex_` are the only ones under which another is taken. -/
theorem fits_lock {p q : Point} {m : Mutex} (is : code most p = .lock m q)
    (next : holds q = m :: holds p)
    (order : holds p = [] ∨ holds p = [.sync] ∧ rank .sync < rank m ∨
      holds p = [.cmd] ∧ rank .cmd < rank m) : Fits (program most) rank holds p := by
  rw [Fits, show (program most).code p = .lock m q from is]
  refine ⟨next, fun m' mem => ?_⟩
  rcases order with empty | ⟨one, lower⟩ | ⟨one, lower⟩
  · rw [empty] at mem
    cases mem
  · rw [one, List.mem_singleton] at mem
    exact mem ▸ lower
  · rw [one, List.mem_singleton] at mem
    exact mem ▸ lower

/-- A mutex released was the last one taken. -/
theorem fits_unlock {p q : Point} {m : Mutex} (is : code most p = .unlock m q)
    (next : holds p = m :: holds q) (once : m ∉ holds q) : Fits (program most) rank holds p := by
  rw [Fits, show (program most).code p = .unlock m q from is]
  exact ⟨next, once⟩

/-- Under `sync_mutex_`, or under nothing. -/
theorem not_mem_outer {l : List Mutex} (outer : l = [] ∨ l = [.sync]) {m : Mutex}
    (other : m ≠ .sync) : m ∉ l := by
  rcases outer with rfl | rfl
  · exact List.not_mem_nil
  · exact fun mem => other (List.mem_singleton.mp mem)

/-- Under `sync_mutex_` every other mutex may be taken. -/
theorem order_outer {l : List Mutex} (outer : l = [] ∨ l = [.sync]) {m : Mutex}
    (lower : rank .sync < rank m) :
    l = [] ∨ l = [.sync] ∧ rank .sync < rank m ∨ l = [.cmd] ∧ rank .cmd < rank m :=
  outer.imp_right fun sync => .inl ⟨sync, lower⟩

/-- Every point holds what its instruction needs, in the order of the ranks. -/
theorem fits (most : ℕ) (p : Point) : Fits (program most) rank holds p := by
  cases p with
  -- the locks
  | waitLock w => exact fits_lock rfl rfl (order_outer (waiter_holds w) (by decide))
  | cmdLock e cmd => exact fits_lock rfl rfl (order_outer (exchange_holds e) (by decide))
  | markLock m cmd => exact fits_lock rfl rfl (order_outer (marker_holds m) (by decide))
  | pingStateLock cmd => exact fits_lock rfl rfl (.inr (.inr ⟨rfl, by decide⟩))
  | reconcileLock | workerLock | rescanLock | changeLock | candidatesLock | connectLock | pauseLock
  | takeLock | pushLock | serversLock | checkLock | stopLock | logoutLock | queueLock
  | enqueueLock => exact fits_lock rfl rfl (.inl rfl)
  | pingTry cmd => exact ⟨rfl, rfl, List.not_mem_nil⟩
  -- where they are released
  | waitUnlock w cmd =>
    refine fits_unlock rfl (congrArg _ (holds_waiter_after w cmd).symm) ?_
    rw [holds_waiter_after]
    exact not_mem_outer (waiter_holds w) (by decide)
  | cmdUnlock e cmd r =>
    have after : holds (if r = .failed then .markLock (.transact e) (some cmd) else e.after r) =
        e.holds := by
      split
      · rfl
      · exact holds_exchange_after e r
    refine fits_unlock rfl (congrArg _ after.symm) ?_
    rw [after]
    exact not_mem_outer (exchange_holds e) (by decide)
  | markUnlock m dropped =>
    have after : holds (if dropped then .markNotify m else m.after) = m.holds := by
      split
      · rfl
      · exact holds_marker_after m
    refine fits_unlock rfl (congrArg _ after.symm) ?_
    rw [after]
    exact not_mem_outer (marker_holds m) (by decide)
  | reconcileUnlock c ok =>
    have after := holds_caller_after c ok
    exact fits_unlock rfl (congrArg _ after.symm) (after ▸ List.not_mem_nil)
  | workerUnlock name => cases name <;> exact fits_unlock rfl rfl List.not_mem_nil
  | rescanUnlock names =>
    have after := holds_nextChange names
    exact fits_unlock rfl (congrArg _ after.symm) (after ▸ List.not_mem_nil)
  | changeUnlock rest =>
    have after := holds_nextChange rest
    exact fits_unlock rfl (congrArg _ after.symm) (after ▸ List.not_mem_nil)
  | candidatesUnlock | connectUnlock | pauseUnlock | takeUnlock | pushUnlock | serversUnlock
  | logoutUnlock | queueUnlock => exact fits_unlock rfl rfl List.not_mem_nil
  | pingStateUnlock cmd conn =>
    cases conn <;> exact fits_unlock rfl rfl (List.mem_singleton.not.mpr (by decide))
  | pingUnlock cmd ok => cases ok <;> exact fits_unlock rfl rfl List.not_mem_nil
  | checkUnlock cmd connected => cases connected <;> exact fits_unlock rfl rfl List.not_mem_nil
  | stopUnlock cmd => cases cmd <;> exact fits_unlock rfl rfl List.not_mem_nil
  | enqueueUnlock left added => cases added <;> exact fits_unlock rfl rfl List.not_mem_nil
  -- the waits, wakeups and ends
  | wait w =>
    refine ⟨rfl, w.holds, rfl, fun m mem => ?_, fun untimed => ?_⟩
    · rcases waiter_holds w with empty | sync
      · rw [empty] at mem
        cases mem
      · rw [sync, List.mem_singleton] at mem
        rw [mem]
        change rank .sync < rank .state
        decide
    · cases w with
      | worker name => rfl
      | _ => cases untimed
  | workerWait => exact ⟨rfl, [], rfl, List.forall_mem_nil _, fun _ => rfl⟩
  | pause => exact ⟨rfl, [], rfl, List.forall_mem_nil _, fun _ => rfl⟩
  | markNotify m => exact holds_marker_after m
  | connectNotify | notifyState | notifyQueue | enqueueNotify => rfl
  | joinWatcher | joinSupervisor | joinWorker => exact ⟨rfl, rfl⟩
  | ended => rfl
  -- the actions
  | commandLoop =>
    refine fits_look rfl fun d a q went => ?_
    split at went
    · cases went
      rfl
    · split at went <;> cases went <;> rfl
  | waitRead w =>
    refine fits_look rfl fun d a q went => ?_
    cases went
    rfl
  | exchange e cmd =>
    refine fits_look rfl fun d a q went => ?_
    split at went <;> cases went
    rfl
  | mark m cmd =>
    refine fits_act rfl fun d a r acted => ?_
    split at acted <;> cases acted <;> rfl
  | pickNames c =>
    refine fits_look rfl fun d a q went => ?_
    split at went
    · split at went <;> cases went
      rfl
    · cases went
  | names c left =>
    cases left with
    | zero =>
      refine fits_act rfl fun d a r acted => ?_
      cases acted
      rfl
    | succ left =>
      refine fits_look rfl fun d a q went => ?_
      split at went <;> cases went <;> rfl
  | workerTake =>
    refine fits_act rfl fun d a r acted => ?_
    split at acted <;> cases acted <;> rfl
  | rescan =>
    refine fits_act rfl fun d a r acted => ?_
    split at acted
    · split at acted <;> cases acted
      rfl
    · cases acted
  | change name rest =>
    refine fits_act rfl fun d a r acted => ?_
    split at acted <;> cases acted
    split <;> rfl
  | changeDone name rest failed =>
    refine fits_act rfl fun d a r acted => ?_
    cases acted
    rfl
  | supervisorTop first =>
    refine fits_look rfl fun d a q went => ?_
    cases went
    split
    · rfl
    · split <;> rfl
  | reconnect =>
    refine fits_look rfl fun d a q went => ?_
    cases went
    split <;> rfl
  | connect =>
    refine fits_look rfl fun d a q went => ?_
    split at went <;> cases went <;> rfl
  | connectSet =>
    refine fits_act rfl fun d a r acted => ?_
    cases acted
    rfl
  | receive cmd =>
    refine fits_look rfl fun d a q went => ?_
    split at went
    · cases went
      rfl
    · split at went <;> cases went <;> rfl
  | pingDue cmd =>
    refine fits_look rfl fun d a q went => ?_
    split at went <;> cases went
    split <;> rfl
  | ping cmd =>
    refine fits_look rfl fun d a q went => ?_
    split at went <;> cases went
    rfl
  | stop =>
    refine fits_act rfl fun d a r acted => ?_
    cases acted
    split <;> rfl
  | stopWatcher =>
    refine fits_act rfl fun d a r acted => ?_
    cases acted
    rfl
  | watch =>
    refine fits_look rfl fun d a q went => ?_
    cases went
    split <;> rfl
  | poll =>
    refine fits_look rfl fun d a q went => ?_
    split at went
    · split at went <;> cases went
      rfl
    · cases went
  | events left =>
    cases left with
    | zero =>
      refine fits_look rfl fun d a q went => ?_
      cases went
      rfl
    | succ left =>
      refine fits_look rfl fun d a q went => ?_
      split at went <;> cases went <;> rfl
  | enqueue name left =>
    refine fits_act rfl fun d a r acted => ?_
    split at acted <;> cases acted <;> rfl
  | take | push | pingState | check | stopRead | logout =>
    refine fits_look rfl fun d a q went => ?_
    cases went
    rfl

end Mutexes

/-- Each action is done whatever the others have done before. -/
theorem prompt (most : ℕ) : Prompt (program most) := by
  intro p f is d
  cases p with
  | commandLoop =>
    cases is
    refine ⟨.command .other, ?_⟩
    dsimp only
    split <;> exact ⟨_, rfl⟩
  | waitRead | take | push | pingState | check | stopRead | logout | changeDone | supervisorTop
  | reconnect | connectSet | stop | stopWatcher | watch =>
    cases is
    exact ⟨.none, _, rfl⟩
  | exchange | ping =>
    cases is
    exact ⟨.result .ok, _, rfl⟩
  | mark m cmd =>
    cases is
    refine ⟨.none, ?_⟩
    dsimp only
    split <;> exact ⟨_, rfl⟩
  | pickNames c =>
    cases is
    exact ⟨.count 0, (d, .names c 0), by simp only [Nat.zero_le, if_true]; rfl⟩
  | names c left =>
    cases left with
    | zero =>
      cases is
      exact ⟨.none, _, rfl⟩
    | succ left =>
      cases is
      exact ⟨.flag false, _, rfl⟩
  | workerTake =>
    cases is
    refine ⟨.none, ?_⟩
    dsimp only
    split <;> exact ⟨_, rfl⟩
  | rescan =>
    cases is
    refine ⟨.names [], ?_⟩
    dsimp only
    rw [if_pos (show ([] : List Bytes).length ≤ most from Nat.zero_le most)]
    exact ⟨_, rfl⟩
  | change | connect | pingDue =>
    cases is
    exact ⟨.flag false, _, rfl⟩
  | receive cmd =>
    cases is
    refine ⟨.received .nothing, ?_⟩
    dsimp only
    split <;> exact ⟨_, rfl⟩
  | poll =>
    cases is
    exact ⟨.count 0, (d, .events 0), by simp only [Nat.zero_le, if_true]; rfl⟩
  | events left =>
    cases left with
    | zero =>
      cases is
      exact ⟨.none, _, rfl⟩
    | succ left =>
      cases is
      exact ⟨.name none, _, rfl⟩
  | enqueue name left =>
    cases is
    refine ⟨.none, ?_⟩
    dsimp only
    split <;> exact ⟨_, rfl⟩
  | workerUnlock name => cases name <;> cases is
  | _ => cases is

/-! ## Whose points they are -/

def Caller.owner : Caller → Thread
  | .supervisor _ => .supervisor
  | .cmdSync => .main

def Exchange.owner : Exchange → Thread
  | .command => .main
  | .list c | .name c _ => c.owner
  | .change .. => .worker

def Waiter.owner : Waiter → Thread
  | .transact e => e.owner
  | .cmdSync => .main
  | .worker _ => .worker

def Marker.owner : Marker → Thread
  | .transact e => e.owner
  | .supervisor => .supervisor
  | .shutdown => .main

/-- Each point but the last is one thread's. -/
def owner : Point → Option Thread
  | .waitLock w | .wait w | .waitRead w | .waitUnlock w _ => some w.owner
  | .cmdLock e _ | .exchange e _ | .cmdUnlock e _ _ => some e.owner
  | .markLock m _ | .mark m _ | .markUnlock m _ | .markNotify m => some m.owner
  | .reconcileLock c | .pickNames c | .names c _ | .reconcileUnlock c _ => some c.owner
  | .workerLock | .workerWait | .workerTake | .workerUnlock _ | .rescanLock | .rescan
  | .rescanUnlock _ | .changeLock .. | .change .. | .changeDone .. | .changeUnlock _ =>
    some .worker
  | .supervisorTop _ | .reconnect | .candidatesLock | .candidatesUnlock | .connect | .connectLock
  | .connectSet | .connectUnlock | .connectNotify | .pauseLock | .pause | .pauseUnlock | .takeLock
  | .take | .takeUnlock _ | .receive _ | .pushLock _ | .push _ | .pushUnlock _ | .serversLock _
  | .serversUnlock _ | .pingDue _ | .pingTry _ | .pingStateLock _ | .pingState _
  | .pingStateUnlock .. | .ping _ | .pingUnlock .. | .checkLock _ | .check _
  | .checkUnlock .. => some .supervisor
  | .watch | .poll | .events _ | .enqueueLock .. | .enqueue .. | .enqueueUnlock ..
  | .enqueueNotify _ => some .watcher
  | .ended => none
  | _ => some .main

def Belongs (t : Thread) (p : Point) : Prop := p = .ended ∨ owner p = some t

/-- The watcher sends nothing to the server. -/
theorem exchange_owner (e : Exchange) : e.owner ≠ .watcher := by
  intro is
  cases e with
  | list c | name c => cases c <;> cases is
  | _ => cases is

theorem caller_owner (c : Caller) : c.owner ≠ .watcher := exchange_owner (.list c)

/-- The watcher does not wait for a connection. -/
theorem waiter_owner (w : Waiter) : w.owner ≠ .watcher := by
  intro is
  cases w with
  | transact e => exact exchange_owner e is
  | _ => cases is

theorem marker_owner (m : Marker) : m.owner ≠ .watcher := by
  intro is
  cases m with
  | transact e => exact exchange_owner e is
  | _ => cases is

section Owners

variable {most : ℕ} {t : Thread}

/-- `transact` returns to the thread that called it. -/
theorem belongs_exchange_after {e : Exchange} (r : CallResult) (mine : e.owner = t) :
    Belongs t (e.after r) := by
  subst mine
  cases e <;> cases r <;> exact .inr rfl

theorem belongs_waiter_after {w : Waiter} (cmd : Option ℕ) (mine : w.owner = t) :
    Belongs t (w.after cmd) := by
  subst mine
  cases w <;> cases cmd
  · exact belongs_exchange_after .failed rfl
  · exact .inr rfl
  · exact .inr rfl
  · exact .inr rfl
  · exact .inr rfl
  · rw [Waiter.after]
    split <;> exact .inr rfl

theorem belongs_marker_after {m : Marker} (mine : m.owner = t) : Belongs t m.after := by
  subst mine
  cases m with
  | transact e => exact belongs_exchange_after .failed rfl
  | _ => exact .inr rfl

theorem belongs_caller_after {c : Caller} (ok : Bool) (mine : c.owner = t) :
    Belongs t (c.after ok) := by
  subst mine
  cases c <;> cases ok <;> exact .inr rfl

/-- `rescan_local` is the worker's. -/
theorem belongs_nextChange (names : List Bytes) : Belongs .worker (nextChange names) := by
  cases names <;> exact .inr rfl

/-- No thread gets to a point of another. -/
theorem belongs_goes {p q : Point} (mine : Belongs t p) (next : Goes (program most) p q) :
    Belongs t q := by
  rcases mine with rfl | mine
  · exact next.elim
  cases p with
  | waitUnlock w cmd =>
    cases next
    exact belongs_waiter_after cmd (Option.some.inj mine)
  | cmdUnlock e cmd r =>
    cases next
    split
    · exact .inr mine
    · exact belongs_exchange_after r (Option.some.inj mine)
  | markUnlock m dropped =>
    cases next
    split
    · exact .inr mine
    · exact belongs_marker_after (Option.some.inj mine)
  | markNotify m =>
    cases next
    exact belongs_marker_after (Option.some.inj mine)
  | reconcileUnlock c ok =>
    cases next
    exact belongs_caller_after ok (Option.some.inj mine)
  | workerUnlock name =>
    cases name <;> cases next
    · exact .inl rfl
    · exact .inr mine
  | rescanUnlock names =>
    cases next
    cases mine
    exact belongs_nextChange names
  | changeUnlock rest =>
    cases next
    cases mine
    exact belongs_nextChange rest
  | pingTry cmd => rcases next with rfl | rfl <;> exact .inr mine
  | pingStateUnlock cmd conn =>
    cases next
    cases conn <;> exact .inr mine
  | pingUnlock cmd ok =>
    cases next
    cases ok <;> exact .inr mine
  | checkUnlock cmd connected =>
    cases next
    cases connected <;> exact .inr mine
  | stopUnlock cmd =>
    cases next
    cases cmd <;> exact .inr mine
  | enqueueUnlock left added =>
    cases next
    cases added <;> exact .inr mine
  | joinWorker =>
    cases next
    exact .inl rfl
  | names c left => cases left <;> exact next.elim
  | events left => cases left <;> exact next.elim
  | waitLock | wait | cmdLock | markLock | reconcileLock | workerLock | workerWait | rescanLock
  | changeLock | candidatesLock | candidatesUnlock | connectLock | connectUnlock | connectNotify
  | pauseLock | pause | pauseUnlock | takeLock | takeUnlock | pushLock | pushUnlock | serversLock
  | serversUnlock | pingStateLock | checkLock | stopLock | logoutLock | logoutUnlock | notifyState
  | queueLock | queueUnlock | notifyQueue | joinWatcher | joinSupervisor | enqueueLock
  | enqueueNotify =>
    cases next
    exact .inr mine
  | _ => exact next.elim

theorem belongs_look {p : Point} {f : Data → Input → Option Point} (is : code most p = look f)
    (same : ∀ d a q, f d a = some q → Belongs t q) {g : Data → Input → Option (Data × Point)}
    (act : (program most).code p = .act g) {d : Data} {a : Input} {r : Data × Point}
    (acted : g d a = some r) : Belongs t r.2 := by
  cases is.symm.trans act
  exact same d a r.2 (look_eq_some acted).2

/-- No action of a thread leads to a point of another. -/
theorem belongs_acts {p : Point} {f : Data → Input → Option (Data × Point)} {d : Data} {a : Input}
    {r : Data × Point} (mine : Belongs t p) (act : (program most).code p = .act f)
    (acted : f d a = some r) : Belongs t r.2 := by
  rcases mine with rfl | mine
  · cases act
  cases p with
  | commandLoop =>
    refine belongs_look rfl (fun d a q went => ?_) act acted
    cases mine
    split at went
    · cases went
      exact .inr rfl
    · split at went <;> cases went <;> exact .inr rfl
  | waitRead w =>
    refine belongs_look rfl (fun d a q went => ?_) act acted
    cases went
    exact .inr mine
  | exchange e cmd =>
    refine belongs_look rfl (fun d a q went => ?_) act acted
    split at went <;> cases went
    exact .inr mine
  | mark m cmd =>
    cases act
    dsimp only at acted
    split at acted <;> cases acted <;> exact .inr mine
  | pickNames c =>
    refine belongs_look rfl (fun d a q went => ?_) act acted
    split at went
    · split at went <;> cases went
      exact .inr mine
    · cases went
  | names c left =>
    cases left with
    | zero =>
      cases act
      cases acted
      exact .inr mine
    | succ left =>
      refine belongs_look rfl (fun d a q went => ?_) act acted
      split at went <;> cases went <;> exact .inr mine
  | workerTake =>
    cases act
    dsimp only at acted
    split at acted <;> cases acted <;> exact .inr mine
  | rescan =>
    cases act
    dsimp only at acted
    split at acted
    · split at acted <;> cases acted
      exact .inr mine
    · cases acted
  | change name rest =>
    cases act
    dsimp only at acted
    split at acted <;> cases acted
    split <;> exact .inr mine
  | changeDone | connectSet | stopWatcher =>
    cases act
    cases acted
    exact .inr mine
  | supervisorTop first =>
    refine belongs_look rfl (fun d a q went => ?_) act acted
    cases went
    split
    · exact .inl rfl
    · split <;> exact .inr mine
  | reconnect =>
    refine belongs_look rfl (fun d a q went => ?_) act acted
    cases went
    split
    · exact .inl rfl
    · exact .inr mine
  | connect =>
    refine belongs_look rfl (fun d a q went => ?_) act acted
    split at went <;> cases went <;> exact .inr mine
  | receive cmd =>
    refine belongs_look rfl (fun d a q went => ?_) act acted
    split at went
    · cases went
      exact .inr mine
    · split at went <;> cases went <;> exact .inr mine
  | pingDue cmd =>
    refine belongs_look rfl (fun d a q went => ?_) act acted
    split at went <;> cases went
    split <;> exact .inr mine
  | ping cmd =>
    refine belongs_look rfl (fun d a q went => ?_) act acted
    split at went <;> cases went
    exact .inr mine
  | stop =>
    cases act
    cases acted
    split
    · exact .inl rfl
    · exact .inr mine
  | watch =>
    refine belongs_look rfl (fun d a q went => ?_) act acted
    cases went
    split
    · exact .inl rfl
    · exact .inr mine
  | poll =>
    refine belongs_look rfl (fun d a q went => ?_) act acted
    split at went
    · split at went <;> cases went
      exact .inr mine
    · cases went
  | events left =>
    cases left with
    | zero =>
      refine belongs_look rfl (fun d a q went => ?_) act acted
      cases went
      exact .inr mine
    | succ left =>
      refine belongs_look rfl (fun d a q went => ?_) act acted
      split at went <;> cases went
      · exact .inr mine
      · exact .inr mine
      · exact .inl rfl
  | enqueue name left =>
    cases act
    dsimp only at acted
    split at acted <;> cases acted <;> exact .inr mine
  | take | push | pingState | check | stopRead | logout =>
    refine belongs_look rfl (fun d a q went => ?_) act acted
    cases went
    exact .inr mine
  | workerUnlock name => cases name <;> cases act
  | _ => cases act

end Owners

/-! ## The steps left -/

section Steps

variable (most : ℕ)

/-- From where `reconcile` releases the mutex on. -/
def Caller.steps : Caller → ℕ
  | .supervisor _ => 7
  | .cmdSync => 3

/-- After an exchange that failed, and after any. -/
def Exchange.failed : Exchange → ℕ
  | .command => 2
  | .list c | .name c _ => c.steps
  | .change _ rest => 20 * rest.length + 6

def Exchange.steps : Exchange → ℕ
  | .command => 2
  | .list c => c.steps + 6 + most
  | .name c left => c.steps + 5 + left
  | .change _ rest => 20 * rest.length + 6

/-- After `wait_for_connection` found no connection, and after it found one. -/
def Waiter.missed : Waiter → ℕ
  | .transact e => e.failed
  | .cmdSync => 2
  | .worker _ => 4

def Waiter.found : Waiter → ℕ
  | .transact e => e.steps most + 7
  | .cmdSync => 8
  | .worker _ => 20 * most + 12

def Marker.steps : Marker → ℕ
  | .transact e => e.steps most
  | .supervisor => 1
  | .shutdown => 8

/-- A bound for the steps from a point to the end. -/
def steps : Point → ℕ
  | .commandLoop => 2
  | .waitLock w => w.missed + 4
  | .wait w => w.missed + 3
  | .waitRead w => w.missed + 2
  | .waitUnlock w none => w.missed + 1
  | .waitUnlock w (some _) => w.found most + 1
  | .cmdLock e _ => e.steps most + 7
  | .exchange e _ => e.steps most + 6
  | .cmdUnlock e _ _ => e.steps most + 5
  | .markLock m _ => m.steps most + 4
  | .mark m _ => m.steps most + 3
  | .markUnlock m _ => m.steps most + 2
  | .markNotify m => m.steps most + 1
  | .reconcileLock c => c.steps + 5
  | .pickNames c => c.steps + 6 + most
  | .names c left => c.steps + 5 + left
  | .reconcileUnlock c _ => c.steps
  | .workerLock => 4
  | .workerWait => 3
  | .workerTake => 2
  | .workerUnlock none => 1
  | .workerUnlock (some _) => 9
  | .rescanLock => 20 * most + 7
  | .rescan => 20 * most + 6
  | .rescanUnlock names => 20 * names.length + 5
  | .changeLock _ rest => 20 * rest.length + 12
  | .change _ rest => 20 * rest.length + 11
  | .changeDone _ rest _ => 20 * rest.length + 6
  | .changeUnlock rest => 20 * rest.length + 5
  | .supervisorTop _ => 1
  | .reconnect => 1
  | .candidatesLock => 22
  | .candidatesUnlock => 21
  | .connect => 20
  | .connectLock => 19
  | .connectSet => 18
  | .connectUnlock => 17
  | .connectNotify => 16
  | .takeLock => 15
  | .take => 14
  | .takeUnlock _ => 13
  | .pauseLock => 4
  | .pause => 3
  | .pauseUnlock => 2
  | .receive _ => 6
  | .pushLock _ => 19
  | .push _ => 18
  | .pushUnlock _ => 17
  | .serversLock _ => 18
  | .serversUnlock _ => 17
  | .pingDue _ => 16
  | .pingTry _ => 15
  | .pingStateLock _ => 14
  | .pingState _ => 13
  | .pingStateUnlock .. => 12
  | .ping _ => 11
  | .pingUnlock .. => 10
  | .checkLock _ => 9
  | .check _ => 8
  | .checkUnlock .. => 7
  | .stop => 1
  | .stopLock => 18
  | .stopRead => 17
  | .stopUnlock _ => 16
  | .logoutLock => 15
  | .logout => 14
  | .logoutUnlock => 13
  | .notifyState => 8
  | .queueLock => 7
  | .queueUnlock => 6
  | .notifyQueue => 5
  | .stopWatcher => 4
  | .joinWatcher => 3
  | .joinSupervisor => 2
  | .joinWorker => 1
  | .ended => 0
  | .watch => 1
  | .poll => 6 * most + 3
  | .events left => 6 * left + 2
  | .enqueueLock _ left => 6 * left + 6
  | .enqueue _ left => 6 * left + 5
  | .enqueueUnlock left _ => 6 * left + 4
  | .enqueueNotify left => 6 * left + 3

variable {most}

/-- The bound where `transact` returns with a failure. -/
theorem steps_exchange_failed (e : Exchange) : steps most (e.after .failed) = e.failed := by
  cases e <;> rfl

/-- The bound where `transact` returns, whatever the result. -/
theorem steps_exchange_after (e : Exchange) (r : CallResult) :
    steps most (e.after r) ≤ e.steps most := by
  cases e <;> cases r <;> simp only [Exchange.after, Threads.steps, Exchange.steps] <;> omega

/-- The bound where `wait_for_connection` has found a connection. -/
theorem steps_waiter_after (w : Waiter) (cmd : ℕ) :
    steps most (w.after (some cmd)) ≤ w.found most := by
  cases w with
  | transact e => exact Nat.le_refl _
  | cmdSync => exact Nat.le_refl _
  | worker name =>
    rw [Waiter.after]
    split <;> simp only [steps, Waiter.found, List.length_nil] <;> omega

/-- The bound where it has found none. -/
theorem steps_waiter_none (w : Waiter) : steps most (w.after none) = w.missed := by
  cases w with
  | transact e => exact steps_exchange_failed e
  | _ => rfl

theorem steps_marker_after (m : Marker) : steps most m.after ≤ m.steps most := by
  cases m with
  | transact e => exact steps_exchange_after e .failed
  | _ => exact Nat.le_refl _

/-- The callers of `reconcile` have fewer steps left once it has returned. -/
theorem steps_caller_after (c : Caller) (ok : Bool) : steps most (c.after ok) < c.steps := by
  cases c <;> cases ok <;> simp only [Caller.after, steps, Caller.steps, Marker.steps] <;> decide

/-- A name `rescan_local` has found takes twenty steps at most. -/
theorem steps_nextChange (names : List Bytes) :
    steps most (nextChange names) ≤ 20 * names.length + 4 := by
  cases names <;> simp only [nextChange, steps, List.length_nil, List.length_cons] <;> omega

/-- `stopping_` is set. -/
def Final (d : Data) : Prop := d.stopping = true

/-- And the watcher is told to stop. -/
def Closed (d : Data) : Prop := d.stopping = true ∧ d.closed = true

/-- Where nothing is changed, the next points have to be nearer to the end. -/
theorem sinks_look {final : Data → Prop} {p : Point} {f : Data → Input → Option Point}
    (is : code most p = look f)
    (less : ∀ d a q, final d → f d a = some q → steps most q < steps most p) :
    Sinks (program most) final (steps most) p := by
  rw [Sinks, show (program most).code p = .act _ from is]
  intro d a r now acted
  exact less d a r.2 now (look_eq_some acted).2

theorem sinks_act {final : Data → Prop} {p : Point} {f : Data → Input → Option (Data × Point)}
    (is : code most p = .act f)
    (less : ∀ d a r, final d → f d a = some r → steps most r.2 < steps most p) :
    Sinks (program most) final (steps most) p := by
  rw [Sinks, show (program most).code p = .act f from is]
  exact less

/-- Each next point has fewer steps before it, but in the watcher. -/
theorem sinks {p : Point} (other : owner p ≠ some .watcher) :
    Sinks (program most) Final (steps most) p := by
  cases p with
  | commandLoop =>
    refine sinks_look rfl fun d a q (final : d.stopping = true) went => ?_
    rw [if_pos final] at went
    cases went
    exact Nat.lt_succ_self _
  | wait w =>
    refine ⟨Nat.lt_succ_self _, fun d (final : d.stopping = true) => ?_⟩
    change (d.connected || d.stopping) = true
    rw [final, Bool.or_true]
  | waitRead w =>
    refine sinks_look rfl fun d a q (final : d.stopping = true) went => ?_
    rw [final, Bool.not_true, Bool.and_false, if_neg Bool.false_ne_true] at went
    cases went
    exact Nat.lt_succ_self _
  | waitUnlock w cmd =>
    cases cmd with
    | none => exact Nat.lt_succ_of_le (Nat.le_of_eq (steps_waiter_none w))
    | some cmd => exact Nat.lt_succ_of_le (steps_waiter_after w cmd)
  | exchange e cmd =>
    refine sinks_look rfl fun d a q final went => ?_
    split at went <;> cases went
    exact Nat.lt_succ_self _
  | cmdUnlock e cmd r =>
    change steps most (if r = .failed then .markLock (.transact e) (some cmd) else e.after r) <
      e.steps most + 5
    split
    · exact Nat.lt_succ_self _
    · have after : steps most (e.after r) ≤ e.steps most := steps_exchange_after e r
      omega
  | mark m cmd =>
    refine sinks_act rfl fun d a r final acted => ?_
    split at acted <;> cases acted <;> exact Nat.lt_succ_self _
  | markUnlock m dropped =>
    change steps most (if dropped then .markNotify m else m.after) < m.steps most + 2
    split
    · exact Nat.lt_succ_self _
    · exact Nat.lt_succ_of_le (Nat.le_succ_of_le (steps_marker_after m))
  | markNotify m => exact Nat.lt_succ_of_le (steps_marker_after m)
  | pickNames c =>
    refine sinks_look rfl fun d a q final went => ?_
    split at went
    · split at went <;> cases went
      simp only [steps]
      omega
    · cases went
  | names c left =>
    cases left with
    | zero =>
      refine sinks_act rfl fun d a r final acted => ?_
      cases acted
      simp only [steps]
      omega
    | succ left =>
      refine sinks_look rfl fun d a q final went => ?_
      split at went <;> cases went <;> simp only [steps, Waiter.missed, Exchange.failed] <;> omega
  | reconcileUnlock c ok => exact steps_caller_after c ok
  | workerWait =>
    refine ⟨Nat.lt_succ_self _, fun d (final : d.stopping = true) => ?_⟩
    change (d.stopping || !d.queue.isEmpty) = true
    rw [final, Bool.true_or]
  | workerTake =>
    refine sinks_act rfl fun d a r (final : d.stopping = true) acted => ?_
    rw [if_pos final] at acted
    cases acted
    exact Nat.lt_succ_self _
  | workerUnlock name => cases name <;> exact Nat.lt_succ_self _
  | rescan =>
    refine sinks_act rfl fun d a r final acted => ?_
    split at acted
    · split at acted <;> cases acted
      simp only [steps]
      omega
    · cases acted
  | rescanUnlock names => exact Nat.lt_succ_of_le (steps_nextChange names)
  | change name rest =>
    refine sinks_act rfl fun d a r final acted => ?_
    split at acted <;> cases acted
    split <;> simp only [steps, Waiter.missed, Exchange.failed] <;> omega
  | changeDone name rest failed =>
    refine sinks_act rfl fun d a r final acted => ?_
    cases acted
    exact Nat.lt_succ_self _
  | changeUnlock rest => exact Nat.lt_succ_of_le (steps_nextChange rest)
  | supervisorTop first =>
    refine sinks_look rfl fun d a q (final : d.stopping = true) went => ?_
    rw [if_pos final] at went
    cases went
    exact Nat.lt_succ_self _
  | reconnect =>
    refine sinks_look rfl fun d a q (final : d.stopping = true) went => ?_
    rw [if_pos final] at went
    cases went
    exact Nat.lt_succ_self _
  | connect =>
    refine sinks_look rfl fun d a q final went => ?_
    split at went <;> cases went <;> simp only [steps] <;> decide
  | connectSet =>
    refine sinks_act rfl fun d a r final acted => ?_
    cases acted
    exact Nat.lt_succ_self _
  | pause => exact ⟨Nat.lt_succ_self _, fun d final => final⟩
  | receive cmd =>
    refine sinks_look rfl fun d a q (final : d.stopping = true) went => ?_
    rw [if_pos final] at went
    cases went
    exact Nat.lt_succ_self _
  | pingDue cmd =>
    refine sinks_look rfl fun d a q final went => ?_
    split at went <;> cases went
    split <;> simp only [steps] <;> decide
  | pingTry cmd => exact ⟨Nat.lt_succ_self _, by simp only [steps]; decide⟩
  | pingStateUnlock cmd conn =>
    cases conn
    · exact Nat.lt_succ_of_lt (Nat.lt_succ_self _)
    · exact Nat.lt_succ_self _
  | ping cmd =>
    refine sinks_look rfl fun d a q final went => ?_
    split at went <;> cases went
    exact Nat.lt_succ_self _
  | pingUnlock cmd ok =>
    change steps most (if ok then .checkLock cmd else .markLock .supervisor (some cmd)) < 10
    split <;> simp only [steps, Marker.steps] <;> decide
  | checkUnlock cmd connected =>
    change steps most (if connected then .receive cmd else .markLock .supervisor (some cmd)) < 7
    split <;> simp only [steps, Marker.steps] <;> decide
  | stop =>
    refine sinks_act rfl fun d a r (final : d.stopping = true) acted => ?_
    rw [if_pos final] at acted
    cases acted
    exact Nat.lt_succ_self _
  | stopUnlock cmd =>
    change steps most (if cmd.isSome then .logoutLock else .markLock .shutdown none) < 16
    split <;> simp only [steps, Marker.steps] <;> decide
  | stopWatcher =>
    refine sinks_act rfl fun d a r final acted => ?_
    cases acted
    exact Nat.lt_succ_self _
  | pushUnlock | serversUnlock | logoutUnlock | takeUnlock | reconcileLock | cmdLock | waitLock
  | markLock | workerLock | rescanLock | changeLock | candidatesLock | candidatesUnlock
  | connectLock | connectUnlock | connectNotify | pauseLock | pauseUnlock | takeLock | pushLock
  | serversLock | pingStateLock | checkLock | stopLock | logoutLock | notifyState | queueLock
  | queueUnlock | notifyQueue | joinWatcher | joinSupervisor
  | joinWorker => exact Nat.lt_succ_self _
  | take | push | pingState | check | stopRead | logout =>
    refine sinks_look rfl fun d a q final went => ?_
    cases went
    exact Nat.lt_succ_self _
  | ended => trivial
  | _ => exact absurd rfl other

/-- In the watcher too, once it is told to stop. -/
theorem sinks_closed (p : Point) : Sinks (program most) Closed (steps most) p := by
  by_cases other : owner p = some .watcher
  · cases p with
    | watch =>
      refine sinks_look rfl fun d a q final went => ?_
      rw [if_pos final.2] at went
      cases went
      exact Nat.lt_succ_self _
    | poll =>
      refine sinks_look rfl fun d a q final went => ?_
      split at went
      · split at went <;> cases went
        simp only [steps]
        omega
      · cases went
    | events left =>
      cases left with
      | zero =>
        refine sinks_look rfl fun d a q final went => ?_
        cases went
        exact Nat.lt_succ_self _
      | succ left =>
        refine sinks_look rfl fun d a q final went => ?_
        split at went <;> cases went <;> simp only [steps] <;> omega
    | enqueue name left =>
      refine sinks_act rfl fun d a r final acted => ?_
      split at acted <;> cases acted <;> exact Nat.lt_succ_self _
    | enqueueUnlock left added =>
      cases added
      · exact Nat.lt_succ_of_lt (Nat.lt_succ_self _)
      · exact Nat.lt_succ_self _
    | enqueueLock | enqueueNotify => exact Nat.lt_succ_self _
    | waitLock w | wait w | waitRead w | waitUnlock w _ =>
      exact absurd (Option.some.inj other) (waiter_owner w)
    | cmdLock e | exchange e | cmdUnlock e =>
      exact absurd (Option.some.inj other) (exchange_owner e)
    | markLock m | mark m | markUnlock m | markNotify m =>
      exact absurd (Option.some.inj other) (marker_owner m)
    | reconcileLock c | pickNames c | names c | reconcileUnlock c =>
      exact absurd (Option.some.inj other) (caller_owner c)
    | _ => cases other
  · exact (sinks other).mono fun d closed => closed.1

end Steps

/-! ## What the actions change -/

inductive Effect (d : Data) : Point → Data → Prop where
  | none {p : Point} : Effect d p d
  | mark {m : Marker} {cmd : Option ℕ} (on : d.connected = true)
      (same : ∀ c, cmd = some c → c = d.cmd) : Effect d (.mark m cmd) { d with connected := false }
  | names {c : Caller} : Effect d (.names c 0) { d with unsent := [] }
  | workerTake : Effect d .workerTake { d with queue := d.queue.tail }
  | rescan {names : List Bytes} :
      Effect d .rescan { d with unseen := names ++ d.unseen.filter (· ≠ []) }
  | change {name : Bytes} {rest : List Bytes} :
      Effect d (.change name rest) { d with unseen := d.unseen.filter (· ≠ name) }
  | changeDone {name : Bytes} {rest : List Bytes} :
      Effect d (.changeDone name rest true) { d with unsent := name :: d.unsent }
  | connectSet : Effect d .connectSet { d with connected := true, cmd := d.cmd + 1 }
  | stop : Effect d .stop { d with stopping := true }
  | stopWatcher : Effect d .stopWatcher { d with closed := true }
  | enqueue {name : Bytes} {left : ℕ} {queue : List Bytes}
      (more : ∀ path, path ∈ name :: d.queue → path ∈ queue) :
      Effect d (.enqueue name left) { d with queue, unseen := name :: d.unseen }

/-- What a thread waits for besides `stopping_`. -/
def news : Point → Data → Bool
  | .wait _, d => d.connected
  | .workerWait, d => !d.queue.isEmpty
  | _, _ => false

section Effects

variable {most : ℕ} {p : Point} {f : Data → Input → Option (Data × Point)} {d : Data} {a : Input}
  {r : Data × Point}

theorem effect_look {g : Data → Input → Option Point} (is : code most p = look g)
    (act : (program most).code p = .act f) (acted : f d a = some r) : Effect d p r.1 := by
  cases is.symm.trans act
  rw [(look_eq_some acted).1]
  exact .none

/-- Every action has one of the effects listed. -/
theorem effect_acts (act : (program most).code p = .act f) (acted : f d a = some r) :
    Effect d p r.1 := by
  cases p with
  | mark m cmd =>
    cases act
    dsimp only at acted
    split at acted
    · cases acted
      exact .none
    · rename_i same
      cases acted
      rw [Bool.or_eq_true, not_or, Bool.not_eq_true', Bool.not_eq_false] at same
      refine .mark same.1 fun c is => ?_
      have eq := same.2
      rw [is, Option.any_some, bne_iff_ne, not_not] at eq
      exact eq
  | names c left =>
    cases left with
    | zero =>
      cases act
      cases acted
      exact .names
    | succ left => exact effect_look rfl act acted
  | workerTake =>
    cases act
    dsimp only at acted
    split at acted <;> cases acted
    · exact .none
    · exact .workerTake
  | rescan =>
    cases act
    dsimp only at acted
    split at acted
    · split at acted <;> cases acted
      exact .rescan
    · cases acted
  | change name rest =>
    cases act
    dsimp only at acted
    split at acted <;> cases acted
    exact .change
  | changeDone name rest failed =>
    cases act
    cases acted
    cases failed
    · exact .none
    · exact .changeDone
  | connectSet =>
    cases act
    cases acted
    exact .connectSet
  | stop =>
    cases act
    cases acted
    split
    · exact .none
    · exact .stop
  | stopWatcher =>
    cases act
    cases acted
    exact .stopWatcher
  | enqueue name left =>
    cases act
    dsimp only at acted
    split at acted <;> cases acted
    · rename_i queued
      exact .enqueue fun path mem => (List.mem_cons.mp mem).elim (· ▸ queued) id
    · refine .enqueue fun path mem => List.mem_append.mpr ?_
      exact (List.mem_cons.mp mem).symm.imp_right List.mem_singleton.mpr
  | events left => cases left <;> exact effect_look rfl act acted
  | workerUnlock name => cases name <;> cases act
  | commandLoop | waitRead | exchange | pickNames | supervisorTop | reconnect | connect | take
  | receive | push | pingDue | pingState | ping | check | stopRead | logout | watch | poll =>
    exact effect_look rfl act acted
  | _ => cases act

/-- `stopping_` stays set. -/
theorem Effect.stopping {d' : Data} (effect : Effect d p d') (on : d.stopping = true) :
    d'.stopping = true := by
  cases effect with
  | stop => rfl
  | _ => exact on

/-- The flag of the watcher stays set. -/
theorem Effect.closed {d' : Data} (effect : Effect d p d') (on : d.closed = true) :
    d'.closed = true := by
  cases effect with
  | stopWatcher => rfl
  | _ => exact on

/-- Only `shutdown` sets `stopping_`. -/
theorem Effect.going {d' : Data} (effect : Effect d p d') (other : p ≠ .stop)
    (off : d.stopping = false) : d'.stopping = false := by
  cases effect with
  | stop => exact absurd rfl other
  | _ => exact off

/-- Only a connection and a change give a thread that waits something new. -/
theorem Effect.news {d' : Data} (effect : Effect d p d') (connects : p ≠ .connectSet)
    (enqueues : ∀ name left, p ≠ .enqueue name left) {w : Point} (off : news w d = false) :
    news w d' = false := by
  cases effect with
  | mark on same =>
    cases w with
    | wait v => rfl
    | _ => exact off
  | workerTake =>
    cases w with
    | workerWait =>
      have empty : d.queue = [] := by
        rw [Threads.news, Bool.not_eq_false', List.isEmpty_iff] at off
        exact off
      rw [Threads.news, empty]
      rfl
    | _ => exact off
  | connectSet => exact absurd rfl connects
  | enqueue more => exact absurd rfl (enqueues _ _)
  | _ => cases w <;> exact off

end Effects

/-! ## The wakeups -/

/-- The wakeups owed for a connection or a name in the queue. -/
def newsDebt : Cv → Point → Debt
  | .state, .connectUnlock | .state, .connectNotify => .half
  | .queue, .enqueueUnlock _ true | .queue, .enqueueNotify _ => .half
  | _, _ => .none

/-- The wakeups `shutdown` has yet to give. `stopping_` is set under no mutex, so each of
those it is looked at with is taken before. -/
def stopDebt : Cv → Point → Debt
  | .state, .stopLock => .full
  | .state, .stopRead | .state, .stopUnlock _ | .state, .logoutLock | .state, .logout
  | .state, .logoutUnlock | .state, .markLock .shutdown _ | .state, .mark .shutdown _
  | .state, .markUnlock .shutdown _ | .state, .markNotify .shutdown | .state, .notifyState => .half
  | .queue, .stopLock | .queue, .stopRead | .queue, .stopUnlock _ | .queue, .logoutLock
  | .queue, .logout | .queue, .logoutUnlock | .queue, .markLock .shutdown _
  | .queue, .mark .shutdown _ | .queue, .markUnlock .shutdown _ | .queue, .markNotify .shutdown
  | .queue, .notifyState | .queue, .queueLock => .full
  | .queue, .queueUnlock | .queue, .notifyQueue => .half
  | _, _ => .none

section Wakeups

variable {most : ℕ} {due : Point → Data → Bool} {debt : Cv → Point → Debt}

/-- The three waits of the source, and what each is for. -/
theorem wait_cases {w q : Point} {c : Cv} {ready : Data → Bool} {timed : Bool}
    (is : code most w = .wait c ready timed q) :
    (∃ v, w = .wait v ∧ c = .state ∧ ready = fun d => d.connected || d.stopping) ∨
      (w = .pause ∧ c = .state ∧ ready = fun d => d.stopping) ∨
        w = .workerWait ∧ c = .queue ∧ ready = fun d => d.stopping || !d.queue.isEmpty := by
  cases w with
  | wait v =>
    cases is
    exact .inl ⟨v, rfl, rfl, rfl⟩
  | pause =>
    cases is
    exact .inr (.inl ⟨rfl, rfl, rfl⟩)
  | workerWait =>
    cases is
    exact .inr (.inr ⟨rfl, rfl, rfl⟩)
  | names c left => cases left <;> cases is
  | events left => cases left <;> cases is
  | workerUnlock name => cases name <;> cases is
  | _ => cases is

/-- Whoever has something new to look at does not wait. -/
theorem ready_of_news {w q : Point} {c : Cv} {ready : Data → Bool} {timed : Bool}
    (is : code most w = .wait c ready timed q) {d : Data} (there : news w d = true) :
    ready d = true := by
  rcases wait_cases is with ⟨v, rfl, -, rfl⟩ | ⟨rfl, -, rfl⟩ | ⟨rfl, -, rfl⟩
  · exact (Bool.or_eq_true ..).mpr (.inl there)
  · cases there
  · exact (Bool.or_eq_true ..).mpr (.inr there)

/-- Nobody waits once `stopping_` is set. -/
theorem ready_of_stopping {w q : Point} {c : Cv} {ready : Data → Bool} {timed : Bool}
    (is : code most w = .wait c ready timed q) {d : Data} (stopping : d.stopping = true) :
    ready d = true := by
  rcases wait_cases is with ⟨v, rfl, -, rfl⟩ | ⟨rfl, -, rfl⟩ | ⟨rfl, -, rfl⟩
  · exact (Bool.or_eq_true ..).mpr (.inr stopping)
  · exact stopping
  · exact (Bool.or_eq_true ..).mpr (.inl stopping)

/-- A thread that owes nothing, and gives nobody a reason to go on. -/
theorem pays_free {p : Point} (free : ∀ c, debt c p = .none)
    (goes : ∀ c ready timed q, code most p = .wait c ready timed q →
      ∀ d, due p d = true → ready d = true)
    (acts : ∀ f, (program most).code p = .act f → ∀ d a r, f d a = some r →
      ∀ w, due w d = false → due w r.1 = false) : Pays (program most) holds due debt p := by
  have le : ∀ c d, (debt c p).le d := fun c d => by rw [free c]; trivial
  unfold Pays
  cases is : (program most).code p with
  | act f =>
    refine fun d a r acted c => ⟨le c _, fun w ready timed q waits missing there => ?_⟩
    cases (acts f is d a r acted w missing).symm.trans there
  | lock m q =>
    intro c
    split
    · exact fun owes => absurd (free c) owes
    · exact le c _
  | tryLock m q r => exact fun c => ⟨le c _, le c _⟩
  | unlock m q => exact fun c => le c _
  | notify c' q =>
    intro c
    split
    · rw [free c]
      exact Debt.noConfusion
    · exact le c _
  | wait c ready timed q => exact ⟨free, goes c ready timed q is⟩
  | join | halt => exact free

/-- Taking a mutex keeps a debt, and pays the part of it that was to take this mutex. -/
theorem pays_lock {p q : Point} {m : Mutex} (is : code most p = .lock m q)
    (next : ∀ c, if guard c = m then debt c p ≠ .none → debt c q ≠ .none
      else (debt c p).le (debt c q)) : Pays (program most) holds due debt p := by
  rw [Pays, show (program most).code p = .lock m q from is]
  exact next

theorem pays_unlock {p q : Point} {m : Mutex} (is : code most p = .unlock m q)
    (next : ∀ c, (debt c p).le (debt c q)) : Pays (program most) holds due debt p := by
  rw [Pays, show (program most).code p = .unlock m q from is]
  exact next

/-- A wakeup pays a debt of which the mutex is taken. -/
theorem pays_notify {p q : Point} {c' : Cv} (is : code most p = .notify c' q)
    (next : ∀ c, if c = c' then debt c p ≠ .full else (debt c p).le (debt c q)) :
    Pays (program most) holds due debt p := by
  rw [Pays, show (program most).code p = .notify c' q from is]
  exact next

/-- An action that gives nobody a reason to go on has to keep what is owed. -/
theorem pays_act {p : Point} {f : Data → Input → Option (Data × Point)} (is : code most p = .act f)
    (le : ∀ d a r, f d a = some r → ∀ c, (debt c p).le (debt c r.2))
    (quiet : ∀ d a r, f d a = some r → ∀ w, due w d = false → due w r.1 = false) :
    Pays (program most) holds due debt p := by
  rw [Pays, show (program most).code p = .act f from is]
  refine fun d a r acted c => ⟨le d a r acted c, fun w ready timed q waits missing there => ?_⟩
  cases (quiet d a r acted w missing).symm.trans there

/-- The supervisor owes a wakeup for its connection, and the watcher for its names. -/
theorem pays_news (most : ℕ) (p : Point) : Pays (program most) holds news newsDebt p := by
  cases p with
  -- there is something new
  | connectSet =>
    intro d a r acted c
    cases acted
    refine ⟨by cases c <;> trivial, fun w ready timed q waits missing there => ?_⟩
    rcases wait_cases waits with ⟨v, rfl, rfl, -⟩ | ⟨rfl, -, -⟩ | ⟨rfl, -, -⟩
    · exact .inr ⟨rfl, List.mem_singleton_self _⟩
    · cases there
    · cases missing.symm.trans there
  | enqueue name left =>
    intro d a r acted c
    dsimp only at acted
    split at acted <;> cases acted
    · refine ⟨by cases c <;> trivial, fun w ready timed q waits missing there => ?_⟩
      rcases wait_cases waits with ⟨v, rfl, rfl, -⟩ | ⟨rfl, -, -⟩ | ⟨rfl, -, -⟩
      · cases missing.symm.trans there
      · cases there
      · cases missing.symm.trans there
    · refine ⟨by cases c <;> trivial, fun w ready timed q waits missing there => ?_⟩
      rcases wait_cases waits with ⟨v, rfl, rfl, -⟩ | ⟨rfl, -, -⟩ | ⟨rfl, rfl, -⟩
      · cases missing.symm.trans there
      · cases there
      · exact .inr ⟨rfl, List.mem_singleton_self _⟩
  -- up to the wakeups
  | connectUnlock => exact pays_unlock rfl fun c => by cases c <;> decide
  | connectNotify => exact pays_notify rfl fun c => by cases c <;> decide
  | enqueueUnlock left added =>
    refine pays_unlock rfl fun c => ?_
    cases added <;> cases c
    · exact Debt.le_refl .none
    · exact Debt.le_refl .none
    · exact Debt.le_refl .none
    · exact Debt.le_refl .half
  | enqueueNotify left =>
    refine pays_notify rfl fun c => ?_
    cases c
    · exact Debt.le_refl .none
    · exact Debt.noConfusion
  | _ =>
    exact pays_free (fun c => by cases c <;> rfl) (fun _ _ _ _ is _ => ready_of_news is)
      fun f act d a r acted w => (effect_acts act acted).news (fun is => by cases is)
        fun _ _ is => by cases is

/-- `shutdown` owes the wakeups it ends with, from where it sets `stopping_` on. -/
theorem pays_stop (most : ℕ) (p : Point) :
    Pays (program most) holds (fun _ d => d.stopping) stopDebt p := by
  have quiet : ∀ {p : Point} {f}, (program most).code p = .act f → p ≠ .stop →
      ∀ d a r, f d a = some r → Point → d.stopping = false → r.1.stopping = false :=
    fun act other d a r acted _ => (effect_acts act acted).going other
  have free : ∀ {p : Point}, p ≠ .stop → (∀ c, stopDebt c p = .none) →
      Pays (program most) holds (fun _ d => d.stopping) stopDebt p := fun other none =>
    pays_free none (fun _ _ _ _ is _ => ready_of_stopping is) fun f act => quiet act other
  cases p with
  | stop =>
    intro d a r acted c
    cases acted
    split
    · refine ⟨by cases c <;> trivial, fun w ready timed q waits missing there => ?_⟩
      cases missing.symm.trans there
    · exact ⟨by cases c <;> trivial, fun _ _ _ _ _ _ _ => .inl (by cases c <;> rfl)⟩
  | stopLock => exact pays_lock rfl fun c => by cases c <;> decide
  | stopRead =>
    refine pays_act rfl (fun d a r acted c => ?_) (quiet (p := .stopRead) rfl fun is => by cases is)
    cases acted
    cases c
    · exact Debt.le_refl .half
    · exact Debt.le_refl .full
  | stopUnlock cmd =>
    refine pays_unlock rfl fun c => ?_
    cases cmd <;> cases c
    · exact Debt.le_refl .half
    · exact Debt.le_refl .full
    · exact Debt.le_refl .half
    · exact Debt.le_refl .full
  | logoutLock => exact pays_lock rfl fun c => by cases c <;> decide
  | logout =>
    refine pays_act rfl (fun d a r acted c => ?_) (quiet (p := .logout) rfl fun is => by cases is)
    cases acted
    cases c
    · exact Debt.le_refl .half
    · exact Debt.le_refl .full
  | logoutUnlock => exact pays_unlock rfl fun c => by cases c <;> decide
  | markLock m cmd =>
    cases m with
    | shutdown =>
      refine pays_lock rfl fun c => ?_
      cases c
      · rw [if_pos (show guard .state = .state from rfl)]
        exact fun _ => Debt.noConfusion
      · rw [if_neg (show guard .queue ≠ .state by decide)]
        exact Debt.le_refl .full
    | _ => exact free (fun is => by cases is) fun c => by cases c <;> rfl
  | mark m cmd =>
    cases m with
    | shutdown =>
      refine pays_act rfl (fun d a r acted c => ?_)
        (quiet (p := .mark .shutdown cmd) rfl fun is => by cases is)
      split at acted <;> cases acted <;> cases c
      · exact Debt.le_refl .half
      · exact Debt.le_refl .full
      · exact Debt.le_refl .half
      · exact Debt.le_refl .full
    | _ => exact free (fun is => by cases is) fun c => by cases c <;> rfl
  | markUnlock m dropped =>
    cases m with
    | shutdown =>
      refine pays_unlock rfl fun c => ?_
      cases dropped <;> cases c
      · exact Debt.le_refl .half
      · exact Debt.le_refl .full
      · exact Debt.le_refl .half
      · exact Debt.le_refl .full
    | _ => exact free (fun is => by cases is) fun c => by cases c <;> rfl
  | markNotify m =>
    cases m with
    | shutdown => exact pays_notify rfl fun c => by cases c <;> decide
    | _ => exact free (fun is => by cases is) fun c => by cases c <;> rfl
  | notifyState => exact pays_notify rfl fun c => by cases c <;> decide
  | queueLock => exact pays_lock rfl fun c => by cases c <;> decide
  | queueUnlock => exact pays_unlock rfl fun c => by cases c <;> decide
  | notifyQueue => exact pays_notify rfl fun c => by cases c <;> decide
  | _ => exact free (fun is => by cases is) fun c => by cases c <;> rfl

end Wakeups

/-! ## The end -/

/-- The points of `shutdown` once it has set `stopping_`, and the last one. -/
def shutsDown : Point → Bool
  | .stopLock | .stopRead | .stopUnlock _ | .logoutLock | .logout | .logoutUnlock
  | .markLock .shutdown _ | .mark .shutdown _ | .markUnlock .shutdown _ | .markNotify .shutdown
  | .notifyState | .queueLock | .queueUnlock | .notifyQueue | .stopWatcher | .joinWatcher
  | .joinSupervisor | .joinWorker | .ended => true
  | _ => false

section End

variable {most : ℕ} {p q : Point} {s : State Thread Data Point Mutex}
  {moves : List (Thread × Move Input)}

theorem shutsDown_exchange_after (e : Exchange) (r : CallResult) :
    shutsDown (e.after r) = false := by
  cases e <;> cases r <;> rfl

/-- Locks, wakeups and joins lead into `shutdown` only from within. -/
theorem shutsDown_goes (mine : owner p = some .main) (next : Goes (program most) p q)
    (down : shutsDown q = true) : shutsDown p = true := by
  cases p with
  | waitUnlock w cmd =>
    cases next
    cases w with
    | transact e =>
      cases cmd
      · rw [Waiter.after, shutsDown_exchange_after] at down
        cases down
      · cases down
    | cmdSync => cases cmd <;> cases down
    | worker name => cases mine
  | cmdUnlock e cmd r =>
    cases next
    split at down
    · cases down
    · rw [shutsDown_exchange_after] at down
      cases down
  | markLock m cmd =>
    cases next
    cases m with
    | shutdown => rfl
    | _ => cases down
  | markUnlock m dropped =>
    cases next
    cases m with
    | transact e =>
      split at down
      · cases down
      · rw [Marker.after, shutsDown_exchange_after] at down
        cases down
    | supervisor => cases mine
    | shutdown => rfl
  | markNotify m =>
    cases next
    cases m with
    | transact e =>
      rw [Marker.after, shutsDown_exchange_after] at down
      cases down
    | supervisor => cases mine
    | shutdown => rfl
  | reconcileUnlock c ok =>
    cases next
    cases c with
    | supervisor cmd => cases mine
    | cmdSync => cases ok <;> cases down
  | names c left => cases left <;> exact next.elim
  | stopLock | stopUnlock | logoutLock | logoutUnlock | notifyState | queueLock | queueUnlock
  | notifyQueue | joinWatcher | joinSupervisor | joinWorker => rfl
  | waitLock | wait | cmdLock | reconcileLock =>
    cases next
    cases down
  | commandLoop | waitRead | exchange | mark | pickNames | stop | stopRead | logout
  | stopWatcher | ended => exact next.elim
  | _ => cases mine

theorem shutsDown_look {f : Data → Input → Option Point} (is : code most p = look f)
    (same : ∀ d a q, f d a = some q → shutsDown q = false)
    {g : Data → Input → Option (Data × Point)} (act : (program most).code p = .act g) {d : Data}
    {a : Input} {r : Data × Point} (acted : g d a = some r) : shutsDown r.2 = false := by
  cases is.symm.trans act
  exact same d a r.2 (look_eq_some acted).2

theorem shutsDown_acts {f : Data → Input → Option (Data × Point)} {d : Data} {a : Input}
    {r : Data × Point} (mine : owner p = some .main) (act : (program most).code p = .act f)
    (acted : f d a = some r) (down : shutsDown r.2 = true) :
    shutsDown p = true ∨ r.1.stopping = true := by
  cases p with
  | stop =>
    cases act
    cases acted
    refine .inr ?_
    split
    · assumption
    · rfl
  | mark m cmd =>
    cases act
    dsimp only at acted
    cases m with
    | shutdown => exact .inl rfl
    | _ => split at acted <;> cases acted <;> cases down
  | names c left =>
    cases left with
    | zero =>
      cases act
      cases acted
      cases down
    | succ left =>
      refine .inl (Bool.noConfusion (down.symm.trans (shutsDown_look rfl ?_ act acted)))
      intro d a q went
      split at went <;> cases went <;> rfl
  | commandLoop =>
    refine .inl (Bool.noConfusion (down.symm.trans (shutsDown_look rfl ?_ act acted)))
    intro d a q went
    split at went
    · cases went
      rfl
    · split at went <;> cases went <;> rfl
  | waitRead w =>
    refine .inl (Bool.noConfusion (down.symm.trans (shutsDown_look rfl ?_ act acted)))
    intro d a q went
    cases went
    rfl
  | exchange e cmd =>
    refine .inl (Bool.noConfusion (down.symm.trans (shutsDown_look rfl ?_ act acted)))
    intro d a q went
    split at went <;> cases went
    rfl
  | pickNames c =>
    refine .inl (Bool.noConfusion (down.symm.trans (shutsDown_look rfl ?_ act acted)))
    intro d a q went
    split at went
    · split at went <;> cases went
      rfl
    · cases went
  | stopRead | logout | stopWatcher => exact .inl rfl
  | waitLock | wait | waitUnlock | cmdLock | cmdUnlock | markLock | markUnlock | markNotify
  | reconcileLock | reconcileUnlock | stopLock | stopUnlock | logoutLock | logoutUnlock
  | notifyState | queueLock | queueUnlock | notifyQueue | joinWatcher | joinSupervisor
  | joinWorker | ended => cases act
  | _ => cases mine

/-- In every run each thread is at a point of its own. -/
theorem belongs_run (ran : run (step (program most)) start moves = some s) (t : Thread) :
    Belongs t (s.point t) :=
  points_run (Q := Belongs) (fun _ _ _ mine next => belongs_goes mine next)
    (fun _ _ _ _ _ _ mine act acted => belongs_acts mine act acted)
    (fun t => .inr (by cases t <;> rfl)) ran t

/-- In every run each thread holds the mutexes of its point. -/
theorem held_run (ran : run (step (program most)) start moves = some s) :
    Held (program most) holds s :=
  Held.run (fits most) (fun t => by cases t <;> rfl) ran

/-- In every run whoever is waited for owes the wakeup. -/
theorem owed_run {due : Point → Data → Bool} {debt : Cv → Point → Debt}
    (pays : ∀ p, Pays (program most) holds due debt p)
    (ran : run (step (program most)) start moves = some s) : Owed (program most) due debt s :=
  Owed.run (fits most) pays (fun t => by cases t <;> rfl) ran

/-- The main thread is past its commands only when `stopping_` is set. -/
def Stops (s : State Thread Data Point Mutex) : Prop :=
  Belongs .main (s.point .main) ∧ (shutsDown (s.point .main) = true → s.data.stopping = true)

/-- A step keeps that `stopping_` is set from `shutdown` on. -/
theorem Stops.step {s' : State Thread Data Point Mutex} (inv : Stops s)
    {move : Thread × Move Input} (stepped : step (program most) s move = some s') : Stops s' := by
  obtain ⟨mine, stops⟩ := inv
  obtain ⟨t, move⟩ := move
  obtain ⟨moved, others⟩ := moved_step stepped
  have stays : s.data.stopping = true → s'.data.stopping = true := by
    intro on
    rcases moved with ⟨p, f, a, r, -, -, act, acted, data, -⟩ | ⟨data, -⟩
    · rw [data]
      exact (effect_acts act acted).stopping on
    · rw [data]
      exact on
  by_cases main : t = .main
  · subst main
    rcases moved with ⟨p, f, a, r, -, here, act, acted, data, point⟩ | ⟨-, point | next⟩
    · rw [State.point, here] at mine stops
      unfold Stops
      rw [point]
      refine ⟨belongs_acts mine act acted, fun down => ?_⟩
      rcases mine with rfl | mine
      · cases act
      · rcases shutsDown_acts mine act acted down with before | on
        · exact stays (stops before)
        · exact data ▸ on
    · unfold Stops
      rw [point]
      exact ⟨mine, fun down => stays (stops down)⟩
    · refine ⟨belongs_goes mine next, fun down => stays (stops ?_)⟩
      rcases mine with last | mine
      · rw [last]
        rfl
      · exact shutsDown_goes mine next down
  · unfold Stops
    rw [others .main (Ne.symm main)]
    exact ⟨mine, fun down => stays (stops down)⟩

theorem stops_run (ran : run (step (program most)) start moves = some s) : Stops s :=
  run_invariant_of_step (fun _ _ _ inv stepped => inv.step stepped) ⟨.inr rfl, Bool.noConfusion⟩ ran

theorem rank_le (m : Mutex) : rank m ≤ 3 := by cases m <;> decide

/-- The threads end at one point. -/
theorem ended_of_halt {status : Status Point} (done : (program most).ended status = true) :
    status = .running .ended := by
  cases status with
  | running p =>
    rw [Program.ended] at done
    cases p with
    | names c left => cases left <;> cases done
    | events left => cases left <;> cases done
    | workerUnlock name => cases name <;> cases done
    | ended => rfl
    | _ => cases done
  | _ => cases done

/-- Only `shutdown` joins a thread. -/
theorem join_cases {u : Thread} (is : code most p = .join u q) :
    shutsDown p = true ∧ owner p = some .main ∧ u ≠ .main := by
  cases p with
  | joinWatcher | joinSupervisor | joinWorker =>
    cases is
    exact ⟨rfl, rfl, by decide⟩
  | names c left => cases left <;> cases is
  | events left => cases left <;> cases is
  | workerUnlock name => cases name <;> cases is
  | _ => cases is

/-- Only the worker waits without a time limit. -/
theorem wait_untimed {c : Cv} {ready : Data → Bool} (is : code most p = .wait c ready false q) :
    owner p = some .worker := by
  cases p with
  | wait w =>
    cases w with
    | worker name => rfl
    | _ => cases is
  | workerWait => rfl
  | names c left => cases left <;> cases is
  | events left => cases left <;> cases is
  | workerUnlock name => cases name <;> cases is
  | _ => cases is

/-- A wakeup is owed between a change and its notification. -/
theorem newsDebt_cases {c : Cv} (owes : newsDebt c p ≠ .none) :
    c = .state ∧ (p = .connectUnlock ∨ p = .connectNotify) ∨
      c = .queue ∧ ∃ left, p = .enqueueUnlock left true ∨ p = .enqueueNotify left := by
  cases p with
  | connectUnlock =>
    cases c
    · exact .inl ⟨rfl, .inl rfl⟩
    · exact absurd rfl owes
  | connectNotify =>
    cases c
    · exact .inl ⟨rfl, .inr rfl⟩
    · exact absurd rfl owes
  | enqueueUnlock left added =>
    cases c
    · exact absurd rfl owes
    · cases added
      · exact absurd rfl owes
      · exact .inr ⟨rfl, left, .inl rfl⟩
  | enqueueNotify left =>
    cases c
    · exact absurd rfl owes
    · exact .inr ⟨rfl, left, .inr rfl⟩
  | _ => cases c <;> exact absurd rfl owes

/-- A thread sleeps although there is something new: another is about to wake it. -/
theorem about_to_wake (ran : run (step (program most)) start moves = some s) {t : Thread} {c : Cv}
    {ready : Data → Bool} {timed : Bool} (asleep : s.status t = .asleep p)
    (code : code most p = .wait c ready timed q) (there : news p s.data = true) :
    c = .state ∧ (s.status .supervisor = .running .connectUnlock ∨
        s.status .supervisor = .running .connectNotify) ∨
      c = .queue ∧ ∃ left, s.status .watcher = .running (.enqueueUnlock left true) ∨
        s.status .watcher = .running (.enqueueNotify left) := by
  obtain ⟨u, r, running, owes⟩ :=
    (owed_run (pays_news most) ran).asleep t p c ready timed q asleep code there
  have mine := belongs_run ran u
  rw [State.point, running] at mine
  have owned : ∀ v, owner r = some v → u = v := by
    intro v is
    rcases mine with rfl | mine
    · cases is
    · exact Option.some.inj (mine.symm.trans is)
  rcases newsDebt_cases owes with ⟨rfl, rfl | rfl⟩ | ⟨rfl, left, rfl | rfl⟩
  · exact .inl ⟨rfl, .inl (owned .supervisor rfl ▸ running)⟩
  · exact .inl ⟨rfl, .inr (owned .supervisor rfl ▸ running)⟩
  · exact .inr ⟨rfl, left, .inl (owned .watcher rfl ▸ running)⟩
  · exact .inr ⟨rfl, left, .inr (owned .watcher rfl ▸ running)⟩

/-- While a mutex is held, the thread that holds it can move, or one that holds a mutex taken
after it; and nobody sleeps through a connection or a change, but until whoever brought it has
woken them. -/
theorem waits_end (most : ℕ) {moves : List (Thread × Move Input)}
    {s : State Thread Data Point Mutex} (ran : run (step (program most)) start moves = some s) :
    (∀ m t, s.holder m = some t →
      ∃ m' u, (m' = m ∧ u = t ∨ rank m < rank m') ∧ s.holder m' = some u ∧
        CanMove (program most) s u) ∧
    (∀ t w, s.status t = .asleep (.wait w) → s.data.connected = true →
      s.status .supervisor = .running .connectUnlock ∨
        s.status .supervisor = .running .connectNotify) ∧
    (∀ t, s.status t = .asleep .workerWait → s.data.queue ≠ [] →
      ∃ left, s.status .watcher = .running (.enqueueUnlock left true) ∨
        s.status .watcher = .running (.enqueueNotify left)) := by
  refine ⟨fun m t => ?_, fun t w asleep on => ?_, fun t asleep queued => ?_⟩
  · exact holder_moves (held_run ran) (fits most) (prompt most) rank_le
  · rcases about_to_wake ran asleep rfl on with ⟨-, waking⟩ | ⟨is, -⟩
    · exact waking
    · cases is
  · have there : (!s.data.queue.isEmpty) = true := by
      rw [List.isEmpty_eq_false_iff.mpr queued, Bool.not_false]
    rcases about_to_wake ran asleep rfl there with ⟨is, -⟩ | ⟨-, waking⟩
    · cases is
    · exact waking

def go (t : Thread) : Thread × Move Input := (t, .go .none)

/-- The worker sleeps, and the watcher has found a change. -/
def findsChange : List (Thread × Move Input) :=
  List.replicate 3 (go .worker) ++
    [go .watcher, (.watcher, .go (.count 1)), (.watcher, .go (.name (some [97]))), go .watcher,
      go .watcher]

def changeFound : State Thread Data Point Mutex :=
  (run (step (program 1)) start findsChange).get (by decide +kernel)

theorem changeFound_ran : run (step (program 1)) start findsChange = some changeFound :=
  (Option.some_get _).symm

theorem waits_end_of_change :
    ∃ left, changeFound.status .watcher = .running (.enqueueUnlock left true) ∨
      changeFound.status .watcher = .running (.enqueueNotify left) :=
  (waits_end 1 changeFound_ran).2.2 .worker rfl (by decide +kernel)

/-- When no thread can move, all have ended. -/
theorem ended_of_stuck (ran : run (step (program most)) start moves = some s)
    (stuck : ∀ t, ¬CanMove (program most) s t) :
    s.data.stopping = true ∧ ∀ t, s.status t = .running .ended := by
  have locks := held_run ran
  have cases_ := stuck_cases locks (fits most) (prompt most) rank_le stuck
  have stopping : s.data.stopping = true := by
    refine (stops_run ran).2 ?_
    rcases cases_ .main with done | ⟨p, u, q, here, code, -⟩ | ⟨p, c, ready, q, here, code⟩
    · rw [State.point, ended_of_halt done]
      rfl
    · rw [State.point, here]
      exact (join_cases code).1
    · have mine := belongs_run ran .main
      rw [State.point, here] at mine
      rcases mine with rfl | mine
      · cases code
      · cases mine.symm.trans (wait_untimed code)
  have others : ∀ t, t ≠ .main → s.status t = .running .ended := by
    intro t other
    rcases cases_ t with done | ⟨p, u, q, here, code, -⟩ | ⟨p, c, ready, q, here, code⟩
    · exact ended_of_halt done
    · have mine := belongs_run ran t
      rw [State.point, here] at mine
      rcases mine with rfl | mine
      · cases code
      · exact absurd (Option.some.inj (mine.symm.trans (join_cases code).2.1)) other
    · have going := not_due_of_stuck locks (owed_run (pays_stop most) ran) (fits most)
        (pays_stop most) (prompt most) rank_le stuck here code
      cases going.symm.trans stopping
  refine ⟨stopping, fun t => ?_⟩
  by_cases main : t = .main
  · subst main
    rcases cases_ .main with done | ⟨p, u, q, here, code, alive⟩ | ⟨p, c, ready, q, here, code⟩
    · exact ended_of_halt done
    · rw [others u (join_cases code).2.2] at alive
      cases alive
    · have mine := belongs_run ran .main
      rw [State.point, here] at mine
      rcases mine with rfl | mine
      · cases code
      · cases mine.symm.trans (wait_untimed code)
  · exact others t main

/-- However their steps come between each other, the threads are never all stopped before they
have ended; and once `stopping_` is set all but the watcher make only so many more steps, and
so does the watcher when it is told to stop. -/
theorem shutdown_ends (most : ℕ) {moves : List (Thread × Move Input)}
    {s : State Thread Data Point Mutex} (ran : run (step (program most)) start moves = some s) :
    ((∀ t, ¬CanMove (program most) s t) →
      s.data.stopping = true ∧ ∀ t, s.status t = .running .ended) ∧
    (s.data.stopping = true → ∀ later s', run (step (program most)) s later = some s' →
      (later.filter fun m => m.1 ∈ [.main, .supervisor, .worker]).length ≤
          total s (steps most) [.main, .supervisor, .worker] ∧
        (s.data.closed = true →
          later.length ≤ total s (steps most) [.main, .supervisor, .worker, .watcher])) := by
  refine ⟨ended_of_stuck ran, fun stopping later s' ran' => ⟨?_, fun closed => ?_⟩⟩
  · refine moves_le (Q := Belongs) (fun _ _ _ mine next => belongs_goes mine next)
      (fun _ _ _ _ _ _ mine act acted => belongs_acts mine act acted)
      (fun _ _ _ _ _ act on acted => (effect_acts act acted).stopping on)
      (fun t mem p mine => ?_) (show Final s.data from stopping) (belongs_run ran) ran'
    rcases mine with rfl | mine
    · trivial
    · refine sinks fun watcher => ?_
      rw [mine] at watcher
      rw [Option.some.inj watcher] at mem
      exact absurd mem (by decide)
  · have all : (later.filter fun m => m.1 ∈ [.main, .supervisor, .worker, .watcher]).length ≤
        total s (steps most) [.main, .supervisor, .worker, .watcher] :=
      moves_le (Q := fun _ _ => True) (fun _ _ _ _ _ => trivial) (fun _ _ _ _ _ _ _ _ _ => trivial)
        (fun _ _ _ _ _ act on acted => ⟨(effect_acts act acted).stopping on.1,
          (effect_acts act acted).closed on.2⟩)
        (fun _ _ p _ => sinks_closed p) (show Closed s.data from ⟨stopping, closed⟩)
        (fun _ => trivial) ran'
    rwa [List.filter_eq_self.mpr] at all
    rintro ⟨t, move⟩ -
    cases t <;> rfl

/-- Then the user ends the client. -/
def exits : List (Thread × Move Input) := findsChange ++ [(.main, .go (.command .exit)), go .main]

def exiting : State Thread Data Point Mutex :=
  (run (step (program 1)) start exits).get (by decide +kernel)

/-- All its threads end. -/
def ends : List (Thread × Move Input) :=
  List.replicate 11 (go .main) ++ List.replicate 3 (go .watcher) ++ List.replicate 4 (go .main) ++
    [go .watcher, go .supervisor] ++ List.replicate 4 (go .worker) ++ List.replicate 3 (go .main)

def ended : State Thread Data Point Mutex :=
  (run (step (program 1)) exiting ends).get (by decide +kernel)

theorem exiting_ran : run (step (program 1)) start exits = some exiting :=
  (Option.some_get _).symm

theorem ended_ran : run (step (program 1)) exiting ends = some ended := (Option.some_get _).symm

theorem shutdown_ends_of_exit :
    (ends.filter fun m => m.1 ∈ [.main, .supervisor, .worker]).length ≤
      total exiting (steps 1) [.main, .supervisor, .worker] :=
  ((shutdown_ends 1 exiting_ran).2 (by decide +kernel) ends ended ended_ran).1

end End

end SisOp.Threads
