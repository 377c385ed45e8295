import SisOp.Client.Threads

/-!
# What the client does not forget

A path reported by the watcher goes through the queue to the worker, which may wait for a
connection first; the upload or deletion may then fail, with its connection or for want of
one, and is not tried again: "the reconcile after reconnecting will pick it up".

Main result: `nothing_forgotten`, until the client stops a reported path is in the queue or
with the worker until it is looked at, and the supervisor does not receive on a connection
while a change that failed has not been compared again.
-/

namespace SisOp.Threads

open Lib Lib.Monitors

/-! ## The paths on their way -/

def Exchange.rest : Exchange → List Bytes
  | .change _ rest => rest
  | _ => []

def Waiter.carried : Waiter → List Bytes
  | .transact e => e.rest
  | .cmdSync => []
  | .worker name => [name]

def Marker.carried : Marker → List Bytes
  | .transact e => e.rest
  | _ => []

/-- The paths the worker still has to look at; the empty one stands for all. -/
def carried : Point → List Bytes
  | .waitLock w | .wait w | .waitRead w | .waitUnlock w _ => w.carried
  | .cmdLock e _ | .exchange e _ | .cmdUnlock e _ _ => e.rest
  | .markLock m _ | .mark m _ | .markUnlock m _ | .markNotify m => m.carried
  | .workerUnlock (some name) => [name]
  | .rescanLock | .rescan => [[]]
  | .rescanUnlock names => names
  | .changeLock name rest | .change name rest => name :: rest
  | .changeDone _ rest _ | .changeUnlock rest => rest
  | _ => []

/-- `wait_for_connection` does not end for the worker before there is a connection. -/
def Found (d : Data) : Point → Prop
  | .waitRead (.worker _) => d.connected = true
  | .waitUnlock (.worker _) cmd => cmd ≠ none
  | _ => True

structure Kept (d : Data) (p : Point) : Prop where
  kept : ∀ name ∈ d.unseen, name ∈ d.queue ∨ name ∈ carried p
  found : Found d p

section Kept

variable {most : ℕ} {p q : Point} {d : Data}

theorem carried_exchange_after (e : Exchange) (r : CallResult) : carried (e.after r) = e.rest := by
  cases e <;> cases r <;> rfl

theorem carried_nextChange (names : List Bytes) : carried (nextChange names) = names := by
  cases names <;> rfl

/-- Between its actions a thread drops no path. -/
theorem carried_goes (found : Found d p) (next : Goes (program most) p q) :
    carried q = carried p := by
  cases p with
  | waitUnlock w cmd =>
    cases next
    cases w with
    | transact e =>
      cases cmd with
      | none => exact carried_exchange_after e .failed
      | some cmd => rfl
    | cmdSync => cases cmd <;> rfl
    | worker name =>
      cases cmd with
      | none => exact absurd rfl found
      | some cmd =>
        rw [Waiter.after]
        split
        · rename_i all
          rw [all]
          rfl
        · rfl
  | cmdUnlock e cmd r =>
    cases next
    split
    · rfl
    · exact carried_exchange_after e r
  | markUnlock m dropped =>
    cases next
    cases dropped with
    | true => rfl
    | false =>
      cases m with
      | transact e => exact carried_exchange_after e .failed
      | _ => rfl
  | markNotify m =>
    cases next
    cases m with
    | transact e => exact carried_exchange_after e .failed
    | _ => rfl
  | reconcileUnlock c ok =>
    cases next
    cases c <;> cases ok <;> rfl
  | rescanUnlock names =>
    cases next
    exact carried_nextChange names
  | changeUnlock rest =>
    cases next
    exact carried_nextChange rest
  | workerUnlock name => cases name <;> cases next <;> rfl
  | pingTry cmd => rcases next with rfl | rfl <;> rfl
  | pingStateUnlock cmd conn =>
    cases next
    cases conn <;> rfl
  | pingUnlock cmd ok =>
    cases next
    cases ok <;> rfl
  | checkUnlock cmd connected =>
    cases next
    cases connected <;> rfl
  | stopUnlock cmd =>
    cases next
    cases cmd <;> rfl
  | enqueueUnlock left added =>
    cases next
    cases added <;> rfl
  | names c left => cases left <;> exact next.elim
  | events left => cases left <;> exact next.elim
  | waitLock | wait | cmdLock | markLock | reconcileLock | workerLock | workerWait | rescanLock
  | changeLock | candidatesLock | candidatesUnlock | connectLock | connectUnlock | connectNotify
  | pauseLock | pause | pauseUnlock | takeLock | takeUnlock | pushLock | pushUnlock | serversLock
  | serversUnlock | pingStateLock | checkLock | stopLock | logoutLock | logoutUnlock | notifyState
  | queueLock | queueUnlock | notifyQueue | joinWatcher | joinSupervisor | joinWorker | enqueueLock
  | enqueueNotify =>
    cases next
    rfl
  | _ => exact next.elim

theorem found_exchange_after (e : Exchange) (r : CallResult) : Found d (e.after r) := by
  cases e <;> cases r <;> trivial

theorem found_waiter_after (w : Waiter) (cmd : Option ℕ) : Found d (w.after cmd) := by
  cases w with
  | transact e =>
    cases cmd with
    | none => exact found_exchange_after e .failed
    | some cmd => trivial
  | cmdSync => cases cmd <;> trivial
  | worker name =>
    cases cmd with
    | none => trivial
    | some cmd =>
      rw [Waiter.after]
      split <;> trivial

theorem found_marker_after (m : Marker) : Found d m.after := by
  cases m with
  | transact e => exact found_exchange_after e .failed
  | _ => trivial

theorem found_nextChange (names : List Bytes) : Found d (nextChange names) := by
  cases names <;> trivial

theorem found_goes (next : Goes (program most) p q)
    (ready : ∀ name, p = .wait (.worker name) → d.connected = true) : Found d q := by
  cases p with
  | wait w =>
    cases next
    cases w with
    | worker name => exact ready name rfl
    | _ => trivial
  | waitUnlock w cmd =>
    cases next
    exact found_waiter_after w cmd
  | cmdUnlock e cmd r =>
    cases next
    split
    · trivial
    · exact found_exchange_after e r
  | markUnlock m dropped =>
    cases next
    cases dropped with
    | true => trivial
    | false => exact found_marker_after m
  | markNotify m =>
    cases next
    exact found_marker_after m
  | reconcileUnlock c ok =>
    cases next
    cases c <;> cases ok <;> trivial
  | rescanUnlock names =>
    cases next
    exact found_nextChange names
  | changeUnlock rest =>
    cases next
    exact found_nextChange rest
  | workerUnlock name => cases name <;> cases next <;> trivial
  | pingTry cmd => rcases next with rfl | rfl <;> trivial
  | pingStateUnlock cmd conn =>
    cases next
    cases conn <;> trivial
  | pingUnlock cmd ok =>
    cases next
    cases ok <;> trivial
  | checkUnlock cmd connected =>
    cases next
    cases connected <;> trivial
  | stopUnlock cmd =>
    cases next
    cases cmd <;> trivial
  | enqueueUnlock left added =>
    cases next
    cases added <;> trivial
  | names c left => cases left <;> exact next.elim
  | events left => cases left <;> exact next.elim
  | waitLock | cmdLock | markLock | reconcileLock | workerLock | workerWait | rescanLock
  | changeLock | candidatesLock | candidatesUnlock | connectLock | connectUnlock | connectNotify
  | pauseLock | pause | pauseUnlock | takeLock | takeUnlock | pushLock | pushUnlock | serversLock
  | serversUnlock | pingStateLock | checkLock | stopLock | logoutLock | logoutUnlock | notifyState
  | queueLock | queueUnlock | notifyQueue | joinWatcher | joinSupervisor | joinWorker | enqueueLock
  | enqueueNotify =>
    cases next
    trivial
  | _ => exact next.elim

/-- The worker's actions take paths from the queue, look at them, and add those found. -/
theorem Kept.acts (inv : Kept d p) (going : d.stopping = false) (mine : owner p = some .worker)
    {f : Data → Input → Option (Data × Point)} {a : Input} {r : Data × Point}
    (act : (program most).code p = .act f) (acted : f d a = some r) : Kept r.1 r.2 := by
  obtain ⟨kept, found⟩ := inv
  cases p with
  | waitRead w =>
    cases act
    cases acted
    refine ⟨kept, ?_⟩
    cases w with
    | worker name =>
      rw [show d.connected = true from found, going]
      exact Option.some_ne_none _
    | _ => trivial
  | exchange e cmd =>
    obtain ⟨data, q⟩ := r
    obtain ⟨rfl, went⟩ := went_of_look rfl act acted
    split at went <;> cases went
    exact ⟨kept, trivial⟩
  | mark m cmd =>
    cases act
    dsimp only at acted
    split at acted <;> cases acted <;> exact ⟨kept, trivial⟩
  | workerTake =>
    cases act
    dsimp only at acted
    rw [going, if_neg Bool.false_ne_true] at acted
    cases acted
    refine ⟨fun path mem => ?_, trivial⟩
    rcases kept path mem with queued | none_
    · cases queue : d.queue with
      | nil =>
        rw [queue] at queued
        cases queued
      | cons name rest =>
        rw [queue] at queued
        exact (List.mem_cons.mp queued).symm.imp_right fun is => List.mem_singleton.mpr is
    · cases none_
  | rescan =>
    cases act
    dsimp only at acted
    split at acted
    · split at acted <;> cases acted
      refine ⟨fun path mem => ?_, trivial⟩
      rcases List.mem_append.mp mem with found | before
      · exact .inr found
      · obtain ⟨before, other⟩ := List.mem_filter.mp before
        refine .inl ((kept path before).resolve_right fun all => ?_)
        exact of_decide_eq_true other (List.mem_singleton.mp all)
    · cases acted
  | change name rest =>
    cases act
    dsimp only at acted
    split at acted <;> cases acted
    rename_i differs
    dsimp only
    refine ⟨fun path mem => ?_, by cases differs <;> trivial⟩
    obtain ⟨before, other⟩ := List.mem_filter.mp mem
    have left : path ∈ d.queue ∨ path ∈ rest :=
      (kept path before).imp_right fun carried =>
        (List.mem_cons.mp carried).resolve_left (of_decide_eq_true other)
    cases differs <;> exact left
  | changeDone name rest failed =>
    cases act
    cases acted
    refine ⟨fun path mem => ?_, trivial⟩
    cases failed <;> exact kept path mem
  | pickNames c | names c => cases c <;> cases mine
  | events left => cases mine
  | workerUnlock name => cases name <;> cases act
  | waitLock | wait | waitUnlock | cmdLock | cmdUnlock | markLock | markUnlock | markNotify
  | reconcileLock | reconcileUnlock | workerLock | workerWait | rescanLock | rescanUnlock
  | changeLock | changeUnlock | ended => cases act
  | _ => cases mine

/-- What the other threads do adds to the queue what is reported, and ends no connection the
worker is about to take. -/
theorem Kept.others (inv : Kept d p) {d' : Data} (effect : Effect d q d')
    (other : owner q ≠ some .worker)
    (apart : ∀ m cmd name, q = .mark m cmd → p ≠ .waitRead (.worker name)) : Kept d' p := by
  obtain ⟨kept, found⟩ := inv
  cases effect with
  | none => exact ⟨kept, found⟩
  | @mark m cmd =>
    refine ⟨kept, ?_⟩
    cases p with
    | waitRead w =>
      cases w with
      | worker name => exact absurd rfl (apart m cmd name rfl)
      | _ => trivial
    | waitUnlock w => cases w <;> exact found
    | _ => trivial
  | names | stop | stopWatcher => exact ⟨kept, by cases p <;> exact found⟩
  | connectSet =>
    refine ⟨kept, ?_⟩
    cases p with
    | waitRead w =>
      cases w with
      | worker name => rfl
      | _ => trivial
    | waitUnlock w => cases w <;> exact found
    | _ => trivial
  | enqueue more =>
    refine ⟨fun path mem => ?_, by cases p <;> exact found⟩
    rcases List.mem_cons.mp mem with rfl | before
    · exact .inl (more _ List.mem_cons_self)
    · exact (kept path before).imp_left fun queued => more _ (List.mem_cons_of_mem _ queued)
  | workerTake | rescan | change | changeDone => exact absurd rfl other

end Kept

/-! ## The changes that failed -/

/-- The supervisor has compared all files, or was refused their list, and receives on the
connection. -/
def receiving : Point → Bool
  | .cmdUnlock (.list (.supervisor _)) _ .rejected | .reconcileUnlock (.supervisor _) true
  | .receive _ | .pushLock _ | .push _ | .pushUnlock _ | .serversLock _ | .serversUnlock _
  | .pingDue _ | .pingTry _ | .pingStateLock _ | .pingState _ | .pingStateUnlock .. | .ping _
  | .pingUnlock .. | .checkLock _ | .check _ | .checkUnlock .. => true
  | _ => false

/-- A change has failed, and its connection is gone. -/
def failing : Point → Bool
  | .waitUnlock (.transact (.change ..)) none | .markUnlock (.transact (.change ..)) _
  | .markNotify (.transact (.change ..)) | .changeDone _ _ true => true
  | _ => false

/-- The connection a change is sent on. -/
def sending : Point → Option ℕ
  | .waitUnlock (.transact (.change ..)) cmd | .markLock (.transact (.change ..)) cmd
  | .mark (.transact (.change ..)) cmd => cmd
  | .cmdLock (.change ..) cmd | .exchange (.change ..) cmd | .cmdUnlock (.change ..) cmd _ =>
    some cmd
  | _ => none

/-- While the supervisor receives on a connection that is up, no change has failed since all
files were compared, and the worker sends on that connection. -/
structure Safe (d : Data) (supervisor worker : Point) : Prop where
  unsent : receiving supervisor = true → d.connected = true → d.unsent = []
  failing : receiving supervisor = true → d.connected = true → failing worker = false
  sending : receiving supervisor = true → ∀ cmd, sending worker = some cmd → cmd = d.cmd

section Safe

variable {most : ℕ} {p q w : Point} {d d' : Data}

theorem failing_exchange_after {e : Exchange} {r : CallResult} (ended : r ≠ .failed) :
    failing (e.after r) = false := by
  cases e <;> cases r <;> first | rfl | exact absurd rfl ended

theorem failing_nextChange (names : List Bytes) : failing (nextChange names) = false := by
  cases names <;> rfl

theorem sending_exchange_after (e : Exchange) (r : CallResult) : sending (e.after r) = none := by
  cases e <;> cases r <;> rfl

theorem sending_nextChange (names : List Bytes) : sending (nextChange names) = none := by
  cases names <;> rfl

/-- No change starts to fail between the actions. -/
theorem failing_goes (mine : owner p = some .worker) (next : Goes (program most) p q)
    (fails : failing q = true) : failing p = true := by
  cases p with
  | waitUnlock w cmd =>
    cases next
    cases w with
    | transact e =>
      cases e with
      | change name rest => cases cmd <;> first | rfl | cases fails
      | command => cases mine
      | list c | name c => cases c <;> cases mine
    | cmdSync => cases mine
    | worker name =>
      cases cmd with
      | none => cases fails
      | some cmd =>
        rw [Waiter.after] at fails
        split at fails <;> cases fails
  | cmdUnlock e cmd r =>
    cases next
    split at fails
    · cases fails
    · rename_i ended
      rw [failing_exchange_after ended] at fails
      cases fails
  | markUnlock m dropped =>
    cases m with
    | transact e =>
      cases e with
      | change name rest => rfl
      | command => cases mine
      | list c | name c => cases c <;> cases mine
    | _ => cases mine
  | markNotify m =>
    cases m with
    | transact e =>
      cases e with
      | change name rest => rfl
      | command => cases mine
      | list c | name c => cases c <;> cases mine
    | _ => cases mine
  | rescanUnlock names =>
    cases next
    rw [failing_nextChange] at fails
    cases fails
  | changeUnlock rest =>
    cases next
    rw [failing_nextChange] at fails
    cases fails
  | workerUnlock name => cases name <;> cases next <;> cases fails
  | markLock m cmd =>
    cases next
    cases m with
    | transact e => cases e <;> cases fails
    | _ => cases fails
  | waitLock | wait | cmdLock | workerLock | workerWait | rescanLock | changeLock =>
    cases next
    cases fails
  | reconcileLock c | reconcileUnlock c => cases c <;> cases mine
  | names c left => cases left <;> exact next.elim
  | waitRead | exchange | mark | pickNames | workerTake | rescan | change | changeDone =>
    exact next.elim
  | _ => cases mine

/-- A change keeps to the connection it was given. -/
theorem sending_goes (mine : owner p = some .worker) (next : Goes (program most) p q) {cmd : ℕ}
    (sends : sending q = some cmd) : sending p = some cmd := by
  cases p with
  | waitUnlock w cmd =>
    cases next
    cases w with
    | transact e =>
      cases cmd with
      | none =>
        rw [Waiter.after, sending_exchange_after] at sends
        cases sends
      | some cmd =>
        cases e with
        | change name rest => exact sends
        | command => cases mine
        | list c | name c => cases c <;> cases mine
    | cmdSync => cases mine
    | worker name =>
      cases cmd with
      | none => cases sends
      | some cmd =>
        rw [Waiter.after] at sends
        split at sends <;> cases sends
  | cmdLock e cmd =>
    cases next
    cases e <;> exact sends
  | cmdUnlock e cmd r =>
    cases next
    split at sends
    · cases e <;> exact sends
    · rw [sending_exchange_after] at sends
      cases sends
  | markLock m cmd =>
    cases next
    cases m with
    | transact e => cases e <;> exact sends
    | _ => cases sends
  | markUnlock m dropped =>
    cases next
    split at sends
    · cases m <;> cases sends
    · cases m with
      | transact e =>
        rw [Marker.after, sending_exchange_after] at sends
        cases sends
      | _ => cases sends
  | markNotify m =>
    cases next
    cases m with
    | transact e =>
      rw [Marker.after, sending_exchange_after] at sends
      cases sends
    | _ => cases sends
  | rescanUnlock names =>
    cases next
    rw [sending_nextChange] at sends
    cases sends
  | changeUnlock rest =>
    cases next
    rw [sending_nextChange] at sends
    cases sends
  | workerUnlock name => cases name <;> cases next <;> cases sends
  | waitLock | wait | workerLock | workerWait | rescanLock | changeLock =>
    cases next
    cases sends
  | reconcileLock c | reconcileUnlock c => cases c <;> cases mine
  | names c left => cases left <;> exact next.elim
  | waitRead | exchange | mark | pickNames | workerTake | rescan | change | changeDone =>
    exact next.elim
  | _ => cases mine

theorem receiving_goes (mine : owner p = some .supervisor) (next : Goes (program most) p q)
    (receives : receiving q = true) : receiving p = true := by
  cases p with
  | waitUnlock w cmd =>
    cases next
    cases w with
    | transact e =>
      cases e with
      | list c | name c => cases cmd <;> cases c <;> cases receives
      | _ => cases mine
    | _ => cases mine
  | cmdUnlock e cmd r =>
    cases next
    cases e with
    | list c =>
      cases c with
      | supervisor => cases r <;> first | rfl | cases receives
      | cmdSync => cases mine
    | name c => cases r <;> cases c <;> cases receives
    | _ => cases mine
  | markUnlock m dropped =>
    cases next
    cases m with
    | transact e =>
      cases e with
      | list c | name c => cases dropped <;> cases c <;> cases receives
      | _ => cases mine
    | supervisor => cases dropped <;> cases receives
    | shutdown => cases mine
  | markNotify m =>
    cases next
    cases m with
    | transact e =>
      cases e with
      | list c | name c => cases c <;> cases receives
      | _ => cases mine
    | supervisor => cases receives
    | shutdown => cases mine
  | reconcileUnlock c ok =>
    cases next
    cases c with
    | supervisor cmd => cases ok <;> first | rfl | cases receives
    | cmdSync => cases mine
  | pushLock | pushUnlock | serversLock | serversUnlock | pingTry | pingStateLock
  | pingStateUnlock | pingUnlock | checkLock | checkUnlock => rfl
  | waitLock | wait | cmdLock | markLock | reconcileLock | candidatesLock | candidatesUnlock
  | connectLock | connectUnlock | connectNotify | pauseLock | pause | pauseUnlock | takeLock
  | takeUnlock =>
    cases next
    cases receives
  | names c left => cases left <;> exact next.elim
  | waitRead | exchange | mark | pickNames | supervisorTop | reconnect | connect | connectSet | take
  | receive | push | pingDue | pingState | ping | check => exact next.elim
  | _ => cases mine

theorem receiving_look {g : Data → Input → Option Point} (is : code most p = look g)
    (same : ∀ d a q, g d a = some q → receiving q = true → receiving p = true)
    {f : Data → Input → Option (Data × Point)} (act : (program most).code p = .act f) {a : Input}
    {r : Data × Point} (acted : f d a = some r) (receives : receiving r.2 = true) :
    receiving p = true ∧ r.1 = d ∨ (∃ c, p = .names c 0) ∧ r.1 = { d with unsent := [] } ∨
      (∃ c cmd, p = .exchange (.list c) cmd) ∧ a = .result .rejected := by
  obtain ⟨data, went⟩ := went_of_look is act acted
  exact .inl ⟨same d a r.2 went receives, data⟩

/-- The comparison leaves no change that failed, and while it receives the supervisor changes
nothing. -/
theorem receiving_acts (mine : owner p = some .supervisor)
    {f : Data → Input → Option (Data × Point)} (act : (program most).code p = .act f) {a : Input}
    {r : Data × Point} (acted : f d a = some r) (receives : receiving r.2 = true) :
    receiving p = true ∧ r.1 = d ∨ (∃ c, p = .names c 0) ∧ r.1 = { d with unsent := [] } ∨
      (∃ c cmd, p = .exchange (.list c) cmd) ∧ a = .result .rejected := by
  cases p with
  | names c left =>
    cases left with
    | zero =>
      cases act
      cases acted
      exact .inr (.inl ⟨⟨c, rfl⟩, rfl⟩)
    | succ left =>
      refine receiving_look rfl (fun d a q went receives => ?_) act acted receives
      split at went <;> cases went <;> cases receives
  | mark m cmd =>
    cases act
    dsimp only at acted
    split at acted <;> cases acted <;> cases receives
  | connectSet =>
    cases act
    cases acted
    cases receives
  | waitRead w =>
    refine receiving_look rfl (fun d a q went receives => ?_) act acted receives
    cases went
    cases receives
  | exchange e cmd =>
    obtain ⟨data, q⟩ := r
    obtain ⟨rfl, went⟩ := went_of_look rfl act acted
    split at went <;> cases went
    rename_i result
    cases e with
    | list c =>
      cases result with
      | rejected => exact .inr (.inr ⟨⟨c, cmd, rfl⟩, rfl⟩)
      | _ => cases c <;> cases receives
    | _ => cases receives
  | pickNames c =>
    refine receiving_look rfl (fun d a q went receives => ?_) act acted receives
    split at went
    · split at went <;> cases went
      cases receives
    · cases went
  | supervisorTop first =>
    refine receiving_look rfl (fun d a q went receives => ?_) act acted receives
    cases went
    split at receives
    · cases receives
    · split at receives <;> cases receives
  | reconnect =>
    refine receiving_look rfl (fun d a q went receives => ?_) act acted receives
    cases went
    split at receives <;> cases receives
  | connect =>
    refine receiving_look rfl (fun d a q went receives => ?_) act acted receives
    split at went <;> cases went <;> cases receives
  | take =>
    refine receiving_look rfl (fun d a q went receives => ?_) act acted receives
    cases went
    cases receives
  | receive | push | pingDue | pingState | ping | check =>
    exact receiving_look rfl (fun _ _ _ _ _ => rfl) act acted receives
  | waitLock | wait | waitUnlock | cmdLock | cmdUnlock | markLock | markUnlock | markNotify
  | reconcileLock | reconcileUnlock | candidatesLock | candidatesUnlock | connectLock
  | connectUnlock | connectNotify | pauseLock | pause | pauseUnlock | takeLock | takeUnlock
  | pushLock | pushUnlock | serversLock | serversUnlock | pingTry | pingStateLock
  | pingStateUnlock | pingUnlock | checkLock | checkUnlock => cases act
  | _ => cases mine

/-- The worker marks its connection as lost before it gives up a change. -/
theorem Safe.acts {v : Point} (inv : Safe d v p) (going : d.stopping = false)
    (mine : owner p = some .worker) {f : Data → Input → Option (Data × Point)} {a : Input}
    {r : Data × Point} (act : (program most).code p = .act f) (acted : f d a = some r) :
    Safe r.1 v r.2 := by
  obtain ⟨unsent, fails, sends⟩ := inv
  cases p with
  | waitRead w =>
    cases act
    cases acted
    refine ⟨unsent, fun receives on => ?_, fun receives cmd is => ?_⟩
    · rw [show d.connected = true from on, going]
      cases w with
      | transact e => cases e <;> rfl
      | _ => rfl
    · cases w with
      | transact e =>
        cases e with
        | change name rest =>
          change (if (d.connected && !d.stopping) = true then some d.cmd else none) = some cmd at is
          split at is <;> cases is
          rfl
        | _ => cases is
      | _ => cases is
  | exchange e cmd =>
    obtain ⟨data, q⟩ := r
    obtain ⟨rfl, went⟩ := went_of_look rfl act acted
    split at went <;> cases went
    exact ⟨unsent, fun _ _ => by cases e <;> rfl, fun receives cmd' is =>
      sends receives cmd' (by cases e <;> exact is)⟩
  | mark m cmd =>
    cases act
    dsimp only at acted
    split at acted <;> cases acted
    · rename_i kept
      refine ⟨unsent, fun receives on => ?_, fun _ _ is => ?_⟩
      · cases m with
        | transact e =>
          cases e with
          | change name rest =>
            -- the connection of the change is the one that is up
            rw [show d.connected = true from on, Bool.not_true, Bool.false_or] at kept
            cases cmd with
            | none => cases kept
            | some cmd =>
              rw [Option.any_some, bne_iff_ne] at kept
              exact absurd (sends receives cmd rfl) kept
          | _ => rfl
        | _ => rfl
      · cases m with
        | transact e => cases e <;> cases is
        | _ => cases is
    · refine ⟨fun _ => Bool.noConfusion, fun _ => Bool.noConfusion, fun _ _ is => ?_⟩
      cases m with
      | transact e => cases e <;> cases is
      | _ => cases is
  | changeDone name rest failed =>
    cases act
    cases acted
    cases failed with
    | false => exact ⟨unsent, fun _ _ => rfl, fun _ _ is => by cases is⟩
    | true =>
      exact ⟨fun receives on => Bool.noConfusion (fails receives on), fun _ _ => rfl,
        fun _ _ is => by cases is⟩
  | workerTake =>
    cases act
    dsimp only at acted
    split at acted <;> cases acted <;>
      exact ⟨unsent, fun _ _ => rfl, fun _ _ is => by cases is⟩
  | rescan =>
    cases act
    dsimp only at acted
    split at acted
    · split at acted <;> cases acted
      exact ⟨unsent, fun _ _ => rfl, fun _ _ is => by cases is⟩
    · cases acted
  | change name rest =>
    cases act
    dsimp only at acted
    split at acted <;> cases acted
    rename_i differs
    cases differs <;> exact ⟨unsent, fun _ _ => rfl, fun _ _ is => by cases is⟩
  | pickNames c | names c => cases c <;> cases mine
  | workerUnlock name => cases name <;> cases act
  | waitLock | wait | waitUnlock | cmdLock | cmdUnlock | markLock | markUnlock | markNotify
  | reconcileLock | reconcileUnlock | workerLock | workerWait | rescanLock | rescanUnlock
  | changeLock | changeUnlock | ended => cases act
  | _ => cases mine

/-- The other threads at most end the connection, or compare all files themselves. -/
theorem Safe.others {v : Point} (inv : Safe d v w) (effect : Effect d p d')
    (supervisor : owner p ≠ some .supervisor) (worker : owner p ≠ some .worker) : Safe d' v w := by
  obtain ⟨unsent, fails, sends⟩ := inv
  cases effect with
  | mark => exact ⟨fun _ => Bool.noConfusion, fun _ => Bool.noConfusion, sends⟩
  | names => exact ⟨fun _ _ => rfl, fails, sends⟩
  | none | stop | stopWatcher | enqueue => exact ⟨unsent, fails, sends⟩
  | connectSet => exact absurd rfl supervisor
  | workerTake | rescan | change | changeDone => exact absurd rfl worker

/-- A change is sent, and fails, under the mutex that the comparison needs. -/
theorem holds_of_failing (fails : failing w = true) :
    .sync ∈ holds w ∧ ∀ c ready timed r, code most w ≠ .wait c ready timed r := by
  have inner : ∀ m : Mutex, .sync ∈ [m, .sync] :=
    fun m => List.mem_cons_of_mem m (List.mem_singleton_self _)
  cases w with
  | waitUnlock w cmd =>
    cases w with
    | transact e =>
      cases e with
      | change => exact ⟨inner _, fun _ _ _ _ is => by cases is⟩
      | _ => cases fails
    | _ => cases fails
  | markUnlock m =>
    cases m with
    | transact e =>
      cases e with
      | change => exact ⟨inner _, fun _ _ _ _ is => by cases is⟩
      | _ => cases fails
    | _ => cases fails
  | markNotify m =>
    cases m with
    | transact e =>
      cases e with
      | change => exact ⟨List.mem_singleton_self _, fun _ _ _ _ is => by cases is⟩
      | _ => cases fails
    | _ => cases fails
  | changeDone => exact ⟨List.mem_singleton_self _, fun _ _ _ _ is => by cases is⟩
  | _ => cases fails

theorem holds_of_sending {cmd : ℕ} (sends : sending w = some cmd) :
    .sync ∈ holds w ∧ ∀ c ready timed r, code most w ≠ .wait c ready timed r := by
  have inner : ∀ m : Mutex, .sync ∈ [m, .sync] :=
    fun m => List.mem_cons_of_mem m (List.mem_singleton_self _)
  cases w with
  | waitUnlock w cmd =>
    cases w with
    | transact e =>
      cases e with
      | change => exact ⟨inner _, fun _ _ _ _ is => by cases is⟩
      | _ => cases sends
    | _ => cases sends
  | markLock m =>
    cases m with
    | transact e =>
      cases e with
      | change => exact ⟨List.mem_singleton_self _, fun _ _ _ _ is => by cases is⟩
      | _ => cases sends
    | _ => cases sends
  | mark m =>
    cases m with
    | transact e =>
      cases e with
      | change => exact ⟨inner _, fun _ _ _ _ is => by cases is⟩
      | _ => cases sends
    | _ => cases sends
  | cmdLock e =>
    cases e with
    | change => exact ⟨List.mem_singleton_self _, fun _ _ _ _ is => by cases is⟩
    | _ => cases sends
  | exchange e | cmdUnlock e =>
    cases e with
    | change => exact ⟨inner _, fun _ _ _ _ is => by cases is⟩
    | _ => cases sends
  | _ => cases sends

end Safe

/-! ## Runs -/

variable {most : ℕ} {s s' : State Thread Data Point Mutex} {t : Thread} {move : Move Input}

variable (most s) in
structure Base : Prop where
  held : Held (program most) holds s
  timely : Timely (program most) s
  belongs : ∀ t, Belongs t (s.point t)

theorem Base.step (inv : Base most s) (stepped : step (program most) s (t, move) = some s') :
    Base most s' where
  held := inv.held.step (fits most) stepped
  timely := inv.timely.step stepped
  belongs := points_step (fun _ _ _ mine next => belongs_goes mine next)
    (fun _ _ _ _ _ _ mine act acted => belongs_acts mine act acted) inv.belongs stepped

/-- Two threads are not at points where one mutex is held. -/
theorem Base.apart (inv : Base most s) {t u : Thread} {p q : Point} {m : Mutex}
    (first : s.point t = p) (second : s.point u = q)
    (first_runs : ∀ c ready timed r, code most p ≠ .wait c ready timed r)
    (second_runs : ∀ c ready timed r, code most q ≠ .wait c ready timed r)
    (first_holds : m ∈ holds p) (second_holds : m ∈ holds q) : t = u := by
  have one := inv.held.running first first_runs
  have two := inv.held.running second second_runs
  exact inv.held.unique (m := m) (by rw [one]; exact first_holds) (by rw [two]; exact second_holds)

theorem stopping_step (stepped : step (program most) s (t, move) = some s')
    (going : s'.data.stopping = false) : s.data.stopping = false := by
  refine Bool.eq_false_iff.mpr fun on => ?_
  rcases (moved_step stepped).1 with ⟨p, f, a, r, -, -, act, acted, data, -⟩ | ⟨data, -⟩
  · rw [data, (effect_acts act acted).stopping on] at going
    cases going
  · rw [data, on] at going
    cases going

theorem kept_step (base : Base most s)
    (inv : s.data.stopping = false → Kept s.data (s.point .worker))
    (stepped : step (program most) s (t, move) = some s') (going : s'.data.stopping = false) :
    Kept s'.data (s'.point .worker) := by
  have before := stopping_step stepped going
  have kept := inv before
  obtain ⟨moved, others⟩ := moved_step stepped
  by_cases worker : t = .worker
  · subst worker
    have mine := base.belongs .worker
    rcases moved with ⟨p, f, a, r, -, here, act, acted, data, point⟩ | ⟨data, point | next⟩
    · rw [State.point, here] at mine kept
      rw [data, point]
      rcases mine with rfl | mine
      · cases act
      · exact kept.acts before mine act acted
    · rw [data, point]
      exact kept
    · rw [data]
      refine ⟨?_, found_goes next fun name here => ?_⟩
      · rw [carried_goes kept.found next]
        exact kept.kept
      · have ready := ready_of_leaves base.timely stepped here
          (show code most (.wait (.worker name)) = .wait .state _ false _ from rfl) (by
            rw [here] at next
            rw [show s'.point .worker = .waitRead (.worker name) from next]
            exact Point.noConfusion)
        rw [before, Bool.or_false] at ready
        exact ready
  · rw [others .worker (Ne.symm worker)]
    rcases moved with ⟨p, f, a, r, -, here, act, acted, data, -⟩ | ⟨data, -⟩
    · rw [data]
      have mine := base.belongs t
      rw [State.point, here] at mine
      refine kept.others (effect_acts act acted) (fun is => ?_) fun m cmd name is reads => ?_
      · rcases mine with rfl | mine
        · cases is
        · exact worker (Option.some.inj (mine.symm.trans is))
      · subst is
        exact worker (base.apart (m := .state) (by rw [State.point, here]) reads
          (fun _ _ _ _ code => by cases code) (fun _ _ _ _ code => by cases code)
          List.mem_cons_self List.mem_cons_self)
    · rw [data]
      exact kept

def refuses : Move Input → Bool
  | .go (.result .rejected) => true
  | _ => false

/-- The server does not refuse the list of files. -/
def Listed (s : State Thread Data Point Mutex) (label : Thread × Move Input) : Prop :=
  ∀ c cmd, s.status label.1 = .running (.exchange (.list c) cmd) → refuses label.2 = false

/-- Once the supervisor has compared all files no change fails, or is sent on an earlier
connection, before it reconnects. -/
theorem safe_step (base : Base most s)
    (inv : s.data.stopping = false → Safe s.data (s.point .supervisor) (s.point .worker))
    (listed : Listed s (t, move)) (stepped : step (program most) s (t, move) = some s')
    (going : s'.data.stopping = false) :
    Safe s'.data (s'.point .supervisor) (s'.point .worker) := by
  have before := stopping_step stepped going
  have safe := inv before
  obtain ⟨moved, others⟩ := moved_step stepped
  have mine := base.belongs t
  rcases moved with ⟨p, f, a, r, input, here, act, acted, data, point⟩ | ⟨data, point | next⟩
  · have now : s.point t = p := by rw [State.point, here]; rfl
    rw [now] at mine
    have owned : owner p = some t := mine.resolve_left fun is => by
      rw [is] at act
      cases act
    by_cases worker : t = .worker
    · subst worker
      rw [others .supervisor (by decide), data, point]
      rw [now] at safe
      exact safe.acts before owned act acted
    rw [others .worker (Ne.symm worker), data]
    by_cases supervisor : t = .supervisor
    · subst supervisor
      rw [point]
      rw [now] at safe
      cases receives : receiving r.2 with
      | false =>
        refine ⟨?_, ?_, ?_⟩ <;> exact fun is => Bool.noConfusion (receives.symm.trans is)
      | true =>
        rcases receiving_acts owned act acted receives with ⟨was, same⟩ | ⟨⟨c, rfl⟩, same⟩ |
          ⟨⟨c, cmd, rfl⟩, refused⟩
        · rw [same]
          exact ⟨fun _ => safe.unsent was, fun _ => safe.failing was, fun _ => safe.sending was⟩
        · -- the supervisor holds the mutex under which changes are sent
          have alone : ¬(.sync ∈ holds (s.point .worker) ∧
              ∀ c ready timed q, code most (s.point .worker) ≠ .wait c ready timed q) := by
            rintro ⟨held, runs⟩
            cases base.apart (m := .sync) now rfl (fun _ _ _ _ is => by cases is) runs
              (List.mem_singleton_self _) held
          rw [same]
          refine ⟨fun _ _ => rfl, fun _ _ => ?_, fun _ cmd sends => ?_⟩
          · exact Bool.eq_false_iff.mpr fun fails => alone (holds_of_failing fails)
          · exact absurd (holds_of_sending sends) alone
        · have refuses_ := listed c cmd here
          rw [input, refused] at refuses_
          cases refuses_
    · rw [others .supervisor (Ne.symm supervisor)]
      refine safe.others (effect_acts act acted) ?_ ?_
      · exact fun is => supervisor (Option.some.inj (owned.symm.trans is))
      · exact fun is => worker (Option.some.inj (owned.symm.trans is))
  · have all : ∀ u, s'.point u = s.point u := fun u => by
      by_cases same : u = t
      · rw [same, point]
      · exact others u same
    rw [all, all, data]
    exact safe
  · have owned : owner (s.point t) = some t := mine.resolve_left fun is => by
      rw [is] at next
      exact next.elim
    rw [data]
    by_cases worker : t = .worker
    · subst worker
      rw [others .supervisor (by decide)]
      refine ⟨safe.unsent, fun receives on => ?_, fun receives cmd sends => ?_⟩
      · cases fails : failing (s'.point .worker) with
        | false => rfl
        | true => exact (failing_goes owned next fails).symm.trans (safe.failing receives on)
      · exact safe.sending receives cmd (sending_goes owned next sends)
    rw [others .worker (Ne.symm worker)]
    by_cases supervisor : t = .supervisor
    · subst supervisor
      have was := receiving_goes owned next
      exact ⟨fun receives => safe.unsent (was receives),
        fun receives => safe.failing (was receives), fun receives => safe.sending (was receives)⟩
    · rw [others .supervisor (Ne.symm supervisor)]
      exact safe

theorem base_start : Base most start :=
  have here : run (step (program most)) start [] = some start := rfl
  ⟨held_run here, Timely.init _ _, belongs_run here⟩

theorem kept_run {moves : List (Thread × Move Input)}
    (ran : run (step (program most)) start moves = some s) (going : s.data.stopping = false) :
    Kept s.data (s.point .worker) := by
  have both := run_invariant_of_step
    (I := fun s => Base most s ∧ (s.data.stopping = false → Kept s.data (s.point .worker)))
    (fun s label s' inv stepped => ⟨inv.1.step stepped, kept_step inv.1 inv.2 stepped⟩)
    ⟨base_start, fun _ => ⟨List.forall_mem_nil _, trivial⟩⟩ ran
  exact both.2 going

theorem safe_run {moves : List (Thread × Move Input)}
    (ran : run (step (program most)) start moves = some s)
    (listed : Meets (step (program most)) Listed start moves) (going : s.data.stopping = false) :
    Safe s.data (s.point .supervisor) (s.point .worker) := by
  have both := run_invariant
    (I := fun s => Base most s ∧
      (s.data.stopping = false → Safe s.data (s.point .supervisor) (s.point .worker)))
    (fun s label s' inv listed stepped =>
      ⟨inv.1.step stepped, safe_step inv.1 inv.2 listed stepped⟩)
    ⟨base_start, fun _ => ⟨fun is => (by cases is), fun is => (by cases is),
      fun is => (by cases is)⟩⟩ listed ran
  exact both.2 going

/-- Until the client stops, a path that was reported is queued or with the worker until it is
looked at; and if the server never refuses its list, the supervisor does not receive on a
connection that is up while a change that failed has not been compared again. -/
theorem nothing_forgotten (most : ℕ) {moves : List (Thread × Move Input)}
    {s : State Thread Data Point Mutex} (ran : run (step (program most)) start moves = some s)
    (going : s.data.stopping = false) :
    (∀ name ∈ s.data.unseen, name ∈ s.data.queue ∨ name ∈ carried (s.point .worker)) ∧
    (Meets (step (program most)) Listed start moves → receiving (s.point .supervisor) = true →
      s.data.connected = true → s.data.unsent = []) :=
  ⟨(kept_run ran going).kept, fun listed => (safe_run ran listed going).unsent⟩

/-- The supervisor compares all files, of which there are none. -/
def compares : List (Thread × Move Input) :=
  List.replicate 9 (go .supervisor) ++ [(.supervisor, .go (.result .ok)), go .supervisor,
    (.supervisor, .go (.count 0)), go .supervisor, go .supervisor]

/-- A change is found, and its upload fails. -/
def uploadFails : List (Thread × Move Input) :=
  go .supervisor :: compares ++ findsChange ++ List.replicate 2 (go .watcher) ++
    List.replicate 9 (go .worker) ++ [(.worker, .go (.flag true))] ++
    List.replicate 5 (go .worker) ++ [(.worker, .go (.result .failed))] ++
    List.replicate 7 (go .worker)

/-- The supervisor finds the connection gone, and connects again. -/
def reconnects : List (Thread × Move Input) :=
  [(.supervisor, .go (.received .nothing)), (.supervisor, .go (.flag false))] ++
    List.replicate 10 (go .supervisor) ++ [(.supervisor, .go (.flag true))] ++
    List.replicate 4 (go .supervisor)

def comparedAgain : State Thread Data Point Mutex :=
  (run (step (program 1)) start (uploadFails ++ reconnects ++ compares)).get (by decide +kernel)

theorem comparedAgain_ran :
    run (step (program 1)) start (uploadFails ++ reconnects ++ compares) = some comparedAgain :=
  (Option.some_get _).symm

theorem comparedAgain_listed :
    Meets (step (program 1)) Listed start (uploadFails ++ reconnects ++ compares) := by
  refine Meets.of_forall (fun label mem s c cmd _ => ?_) _
  have none_ : (uploadFails ++ reconnects ++ compares).all (fun l => !refuses l.2) = true := by
    decide +kernel
  exact (Bool.not_eq_true' _).mp (List.all_eq_true.mp none_ label mem)

theorem nothing_forgotten_of_failure : comparedAgain.data.unsent = [] :=
  (nothing_forgotten 1 comparedAgain_ran (by decide +kernel)).2 comparedAgain_listed
    (by decide +kernel) (by decide +kernel)

end SisOp.Threads
