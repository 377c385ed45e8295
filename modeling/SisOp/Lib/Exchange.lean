import SisOp.Lib.Run
import Mathlib.Logic.Function.Basic

/-!
# Exchanges one at a time over a shared stream

Threads share one connection to a peer and take turns on it with a lock: a
thread that has the lock sends a request and reads the frames of the reply, what
it reads deciding when the reply is over. Either side of the stream is first in,
first out. A thread that gives up waiting releases the lock before it drops the
connection.

`State.consumed` is history: every frame a thread took as a part of its reply,
with the request the peer sent it for. `matched_of_run` says when the two are
the same: as long as no request is sent over a connection on which a thread has
given up.
-/

namespace Lib.Exchange

open Function

universe u v

variable {τ Frame : Type u} {Ask : Type v}

/-- Where a thread is. Exchanges are numbered. -/
inductive Thread (Ask : Type v) where
  | idle
  | holding
  | reading (id : Nat) (ask : Ask)
  | failed

/-- The connection with its threads. `requests` and `outbox` are at the peer:
what it still has to answer, and the frames it still has to send. -/
structure State (τ : Type u) (Ask : Type v) (Frame : Type u) where
  lock : Option τ
  thread : τ → Thread Ask
  requests : List (Nat × Ask)
  outbox : List (Nat × Frame)
  inbox : List (Nat × Frame)
  connected : Bool
  late : Bool
  next : Nat
  consumed : List (Nat × Nat)

inductive Label (τ : Type u) (Ask : Type v) (Frame : Type u) where
  | acquire (i : τ)
  | release (i : τ)
  | send (i : τ) (ask : Ask)
  | answer (frames : List Frame)
  | deliver
  | receive (i : τ)
  | giveUp (i : τ)
  | drop (i : τ) (found : Bool)
  | shutdown

/-- `receive ask` reads the frames to the end, and not past it. -/
def exact (receive : Ask → Frame → Ask ⊕ Bool) : Ask → List Frame → Bool
  | _, [] => false
  | ask, frame :: frames =>
    match receive ask frame with
    | .inl more => exact receive more frames
    | .inr _ => frames.isEmpty

section Step

variable [DecidableEq τ] (receive : Ask → Frame → Ask ⊕ Bool)

def step (s : State τ Ask Frame) : Label τ Ask Frame → Option (State τ Ask Frame)
  | .acquire i =>
    match s.lock, s.thread i with
    | none, .idle => some { s with lock := some i, thread := update s.thread i .holding }
    | _, _ => none
  | .release i =>
    match s.thread i with
    | .holding => some { s with lock := none, thread := update s.thread i .idle }
    | _ => none
  | .send i ask =>
    match s.thread i with
    | .holding =>
      if s.connected then
        some { s with
          thread := update s.thread i (.reading s.next ask)
          requests := s.requests ++ [(s.next, ask)]
          next := s.next + 1 }
      else some { s with lock := none, thread := update s.thread i .failed }
    | _ => none
  | .answer frames =>
    match s.requests with
    | (id, ask) :: rest =>
      if exact receive ask frames then
        some { s with requests := rest, outbox := s.outbox ++ frames.map fun f => (id, f) }
      else none
    | [] => none
  | .deliver =>
    match s.outbox with
    | frame :: rest => some { s with outbox := rest, inbox := s.inbox ++ [frame] }
    | [] => none
  | .receive i =>
    match s.thread i, s.inbox with
    | .reading id ask, (of, frame) :: rest =>
      let s := { s with inbox := rest, consumed := s.consumed ++ [(id, of)] }
      match receive ask frame with
      | .inl more => some { s with thread := update s.thread i (.reading id more) }
      | .inr true => some { s with lock := none, thread := update s.thread i .idle }
      | .inr false => some { s with lock := none, thread := update s.thread i .failed }
    | _, _ => none
  | .giveUp i =>
    match s.thread i with
    | .reading _ _ => some { s with
        lock := none, thread := update s.thread i .failed, late := true }
    | _ => none
  | .drop i found =>
    match s.thread i with
    | .failed => some { s with
        thread := update s.thread i .idle, connected := s.connected && !found }
    | _ => none
  | .shutdown => some { s with connected := false }

end Step

/-- A connection just made. -/
def fresh : State τ Ask Frame := ⟨none, fun _ => .idle, [], [], [], true, false, 0, []⟩

/-- No request is sent over a live connection on which a thread has given up. -/
def OnTime (s : State τ Ask Frame) : Label τ Ask Frame → Prop
  | .send _ _ => s.connected = true → s.late = false
  | _ => True

instance (s : State τ Ask Frame) (label : Label τ Ask Frame) : Decidable (OnTime s label) := by
  unfold OnTime
  split <;> infer_instance

/-- Every frame was taken for a part of the reply it is a part of. -/
def Matched (s : State τ Ask Frame) : Prop := ∀ entry ∈ s.consumed, entry.1 = entry.2

section Invariant

variable {receive : Ask → Frame → Ask ⊕ Bool} {s s' : State τ Ask Frame} {i : τ}

/-- All that is on the stream is the exchange `id`: its request, or what is left
of the reply. -/
inductive Serving (receive : Ask → Frame → Ask ⊕ Bool) (s : State τ Ask Frame) (id : Nat)
    (ask : Ask) :
    Prop
  | asked (requests : s.requests = [(id, ask)]) (outbox : s.outbox = []) (inbox : s.inbox = [])
  | answered (frames : List Frame) (requests : s.requests = [])
      (left : s.inbox ++ s.outbox = frames.map fun f => (id, f))
      (whole : exact receive ask frames = true)

/-- Nothing is on the stream. -/
structure Quiet (s : State τ Ask Frame) : Prop where
  requests : s.requests = []
  outbox : s.outbox = []
  inbox : s.inbox = []

/-- The thread has the lock. -/
def Thread.active : Thread Ask → Bool
  | .holding | .reading _ _ => true
  | _ => false

structure Inv (receive : Ask → Frame → Ask ⊕ Bool) (s : State τ Ask Frame) : Prop where
  owner : ∀ i, (s.thread i).active = true → s.lock = some i
  late : s.late = true → ∀ i id ask, s.thread i ≠ .reading id ask
  serving : ∀ i id ask, s.thread i = .reading id ask → Serving receive s id ask
  quiet : s.late = false → (∀ i id ask, s.thread i ≠ .reading id ask) → Quiet s
  matched : Matched s

theorem inv_fresh : Inv receive (fresh : State τ Ask Frame) where
  owner _ active := nomatch active
  late _ _ _ _ := nofun
  serving _ _ _ reading := nomatch reading
  quiet _ _ := ⟨rfl, rfl, rfl⟩
  matched _ mem := absurd mem List.not_mem_nil

/-- Nobody else has the lock. -/
theorem Inv.other_inactive {j : τ} (inv : Inv receive s) (active : (s.thread i).active = true)
    (other : j ≠ i) : (s.thread j).active = false := by
  by_contra holds
  rw [Bool.not_eq_false] at holds
  have same := (inv.owner j holds).symm.trans (inv.owner i active)
  exact other (Option.some.inj same)

/-- The thread that has the lock moves on and keeps it. -/
theorem Inv.owner_update [DecidableEq τ] {j : τ} (inv : Inv receive s)
    (active : (s.thread i).active = true) {next : Thread Ask}
    (held : (update s.thread i next j).active = true) : s.lock = some j := by
  by_cases same : j = i
  · rw [same]
    exact inv.owner i active
  · rw [update_of_ne same, inv.other_inactive active same] at held
    cases held

theorem Inv.other_not_reading {j : τ} (inv : Inv receive s) (active : (s.thread i).active = true)
    (other : j ≠ i) (id : Nat) (ask : Ask) : s.thread j ≠ .reading id ask := by
  intro reading
  have inactive := inv.other_inactive active other
  rw [reading] at inactive
  cases inactive

/-- A thread that has the lock releases it. -/
theorem Inv.unlock [DecidableEq τ] (inv : Inv receive s) (active : (s.thread i).active = true)
    (next : Thread Ask) (inactive : next.active = false)
    (thread : s'.thread = update s.thread i next) (quiet : s'.late = false → Quiet s')
    (matched : Matched s') : Inv receive s' := by
  have nobody : ∀ j, (s'.thread j).active = false := by
    intro j
    rw [thread]
    by_cases same : j = i
    · subst j
      rw [update_self]
      exact inactive
    · rw [update_of_ne same]
      exact inv.other_inactive active same
  have still : ∀ j id ask, s'.thread j ≠ .reading id ask := by
    intro j id ask reading
    have none := nobody j
    rw [reading] at none
    cases none
  refine ⟨fun j held => ?_, fun _ => still, fun j id ask reading => absurd reading (still j id ask),
    fun punctual _ => quiet punctual, matched⟩
  rw [nobody j] at held
  cases held

/-- Nothing happens to the threads. -/
theorem Inv.of_threads (inv : Inv receive s) (lock : s'.lock = s.lock)
    (thread : s'.thread = s.thread) (late : s'.late = s.late) (consumed : s'.consumed = s.consumed)
    (serving : ∀ id ask, Serving receive s id ask → Serving receive s' id ask)
    (quiet : Quiet s → Quiet s') : Inv receive s' where
  owner j held := by
    rw [thread] at held
    rw [lock]
    exact inv.owner j held
  late isLate := by
    rw [thread]
    exact inv.late (late ▸ isLate)
  serving j id ask reading := by
    rw [thread] at reading
    exact serving id ask (inv.serving j id ask reading)
  quiet punctual silent := by
    rw [thread] at silent
    exact quiet (inv.quiet (late ▸ punctual) silent)
  matched := by
    rw [Matched, consumed]
    exact inv.matched

theorem Serving.congr {id : Nat} {ask : Ask} (serving : Serving receive s id ask)
    (requests : s'.requests = s.requests) (outbox : s'.outbox = s.outbox)
    (inbox : s'.inbox = s.inbox) : Serving receive s' id ask := by
  cases serving with
  | asked requests' outbox' inbox' =>
    exact .asked (requests.trans requests') (outbox.trans outbox') (inbox.trans inbox')
  | answered frames requests' left whole =>
    refine .answered frames (requests.trans requests') ?_ whole
    rw [outbox, inbox]
    exact left

theorem Quiet.congr (quiet : Quiet s) (requests : s'.requests = s.requests)
    (outbox : s'.outbox = s.outbox) (inbox : s'.inbox = s.inbox) : Quiet s' :=
  ⟨requests.trans quiet.requests, outbox.trans quiet.outbox, inbox.trans quiet.inbox⟩

/-- Reading one frame of the reply that is on the stream. -/
theorem Serving.read {id of : Nat} {ask : Ask} {frame : Frame} {rest : List (Nat × Frame)}
    (serving : Serving receive s id ask) (inbox : s.inbox = (of, frame) :: rest) :
    of = id ∧ s.requests = [] ∧
      ((∃ more frames, receive ask frame = .inl more ∧ exact receive more frames = true ∧
          rest ++ s.outbox = frames.map fun f => (id, f)) ∨
        ∃ fine, receive ask frame = .inr fine ∧ rest = [] ∧ s.outbox = []) := by
  cases serving with
  | asked _ _ empty =>
    rw [inbox] at empty
    cases empty
  | answered frames requests left whole =>
    rw [inbox] at left
    cases frames with
    | nil => cases whole
    | cons first frames =>
      rw [List.map_cons, List.cons_append, List.cons.injEq, Prod.mk.injEq] at left
      obtain ⟨⟨rfl, rfl⟩, left⟩ := left
      refine ⟨rfl, requests, ?_⟩
      rw [exact] at whole
      cases read : receive ask frame with
      | inl more =>
        rw [read] at whole
        exact .inl ⟨more, frames, rfl, whole, left⟩
      | inr fine =>
        rw [read] at whole
        obtain rfl := List.isEmpty_iff.mp whole
        exact .inr ⟨fine, rfl, List.append_eq_nil_iff.mp left⟩

/-- A thread that has the lock and does not read is the only one that could. -/
theorem Inv.nobody_reading (inv : Inv receive s) (holding : s.thread i = .holding)
    (j : τ) (id : Nat) (ask : Ask) : s.thread j ≠ .reading id ask := by
  intro reading
  have mine := inv.owner i (by rw [holding]; rfl)
  have theirs := inv.owner j (by rw [reading]; rfl)
  obtain rfl : i = j := Option.some.inj (mine.symm.trans theirs)
  rw [holding] at reading
  cases reading

theorem Inv.acquire [DecidableEq τ] (inv : Inv receive s) (free : s.lock = none) (i : τ) :
    Inv receive { s with lock := some i, thread := update s.thread i .holding } := by
  have nobody : ∀ j, (s.thread j).active ≠ true := by
    intro j active
    have held := inv.owner j active
    rw [free] at held
    cases held
  have before : ∀ j id ask, s.thread j ≠ .reading id ask := by
    intro j id ask reading
    exact nobody j (by rw [reading]; rfl)
  have still : ∀ j id ask, update s.thread i .holding j ≠ .reading id ask := by
    intro j id ask
    by_cases same : j = i
    · subst j
      rw [update_self]
      nofun
    · rw [update_of_ne same]
      exact before j id ask
  refine ⟨fun j active => ?_, fun _ => still,
    fun j id ask reading => absurd reading (still j id ask),
    fun punctual _ => (inv.quiet punctual before).congr rfl rfl rfl, inv.matched⟩
  dsimp only at active ⊢
  by_cases same : j = i
  · rw [same]
  · rw [update_of_ne same] at active
    exact absurd active (nobody j)

/-- A request is sent over a stream that is quiet. -/
theorem Inv.send [DecidableEq τ] (inv : Inv receive s) (holding : s.thread i = .holding)
    (punctual : s.late = false) (ask : Ask) :
    Inv receive { s with
      thread := update s.thread i (.reading s.next ask)
      requests := s.requests ++ [(s.next, ask)]
      next := s.next + 1 } := by
  have active : (s.thread i).active = true := by rw [holding]; rfl
  obtain ⟨requests, outbox, inbox⟩ := inv.quiet punctual (inv.nobody_reading holding)
  have only : ∀ j id ask', update s.thread i (.reading s.next ask) j = .reading id ask' →
      id = s.next ∧ ask' = ask := by
    intro j id ask' reading
    by_cases same : j = i
    · subst j
      rw [update_self] at reading
      cases reading
      exact ⟨rfl, rfl⟩
    · rw [update_of_ne same] at reading
      exact absurd reading (inv.nobody_reading holding j id ask')
  refine ⟨fun j => inv.owner_update active, fun isLate => ?_, fun j id ask' reading => ?_,
    fun _ silent => ?_, inv.matched⟩
  · rw [punctual] at isLate
    cases isLate
  · obtain ⟨rfl, rfl⟩ := only j id ask' reading
    refine .asked ?_ outbox inbox
    dsimp only
    rw [requests, List.nil_append]
  · exact absurd (update_self ..) (silent i s.next ask)

/-- A frame of a reply that goes on. -/
theorem Inv.readOn [DecidableEq τ] (inv : Inv receive s) {id : Nat} {ask more : Ask}
    {frames : List Frame} {rest : List (Nat × Frame)} (reading : s.thread i = .reading id ask)
    (requests : s.requests = []) (whole : exact receive more frames = true)
    (left : rest ++ s.outbox = frames.map fun f => (id, f)) :
    Inv receive { s with
      thread := update s.thread i (.reading id more)
      inbox := rest
      consumed := s.consumed ++ [(id, id)] } := by
  have active : (s.thread i).active = true := by rw [reading]; rfl
  refine ⟨fun j => inv.owner_update active, fun isLate => absurd reading (inv.late isLate i id ask),
    fun j id' ask' reading' => ?_, fun _ silent => absurd (update_self ..) (silent i id more),
    fun entry mem => ?_⟩
  · dsimp only at reading'
    by_cases same : j = i
    · subst j
      rw [update_self] at reading'
      cases reading'
      exact .answered frames requests left whole
    · rw [update_of_ne same] at reading'
      exact absurd reading' (inv.other_not_reading active same id' ask')
  · rcases List.mem_append.mp mem with before | last
    · exact inv.matched entry before
    · rw [List.mem_singleton.mp last]

theorem Inv.step [DecidableEq τ] {label : Label τ Ask Frame} (inv : Inv receive s)
    (onTime : OnTime s label) (stepped : Exchange.step receive s label = some s') :
    Inv receive s' := by
  cases label with
  | acquire i =>
    simp only [Exchange.step] at stepped
    split at stepped
    · rename_i free idle
      cases stepped
      exact inv.acquire free i
    · cases stepped
  | release i =>
    simp only [Exchange.step] at stepped
    split at stepped
    · rename_i holding
      cases stepped
      exact inv.unlock (by rw [holding]; rfl) .idle rfl rfl
        (fun punctual => (inv.quiet punctual (inv.nobody_reading holding)).congr rfl rfl rfl)
        inv.matched
    · cases stepped
  | send i ask =>
    simp only [Exchange.step] at stepped
    split at stepped
    · rename_i holding
      split at stepped
      · rename_i connected
        cases stepped
        exact inv.send holding (onTime connected) ask
      · cases stepped
        exact inv.unlock (by rw [holding]; rfl) .failed rfl rfl
          (fun punctual => (inv.quiet punctual (inv.nobody_reading holding)).congr rfl rfl rfl)
          inv.matched
    · cases stepped
  | answer frames =>
    simp only [Exchange.step] at stepped
    split at stepped
    · rename_i id ask rest requests
      split at stepped
      · rename_i whole
        cases stepped
        refine inv.of_threads rfl rfl rfl rfl (fun id' ask' serving => ?_) fun quiet => ?_
        · cases serving with
          | asked only outbox inbox =>
            rw [requests, List.cons.injEq, Prod.mk.injEq] at only
            obtain ⟨⟨rfl, rfl⟩, rfl⟩ := only
            refine .answered frames rfl ?_ whole
            dsimp only
            rw [outbox, inbox, List.nil_append, List.nil_append]
          | answered _ none =>
            rw [requests] at none
            cases none
        · have none := quiet.requests
          rw [requests] at none
          cases none
      · cases stepped
    · cases stepped
  | deliver =>
    simp only [Exchange.step] at stepped
    split at stepped
    · rename_i frame rest outbox
      cases stepped
      refine inv.of_threads rfl rfl rfl rfl (fun id ask serving => ?_) fun quiet => ?_
      · cases serving with
        | asked _ none =>
          rw [outbox] at none
          cases none
        | answered frames requests left whole =>
          refine .answered frames requests ?_ whole
          rw [outbox, List.append_cons] at left
          exact left
      · have none := quiet.outbox
        rw [outbox] at none
        cases none
    · cases stepped
  | receive i =>
    simp only [Exchange.step] at stepped
    split at stepped
    · rename_i id ask of frame rest reading inbox
      have active : (s.thread i).active = true := by rw [reading]; rfl
      obtain ⟨rfl, requests, read⟩ := (inv.serving i id ask reading).read inbox
      rcases read with ⟨more, frames, goes, whole, left⟩ | ⟨fine, ended, rfl, outbox⟩
      · simp only [goes] at stepped
        cases stepped
        exact inv.readOn reading requests whole left
      · have matched : ∀ entry ∈ s.consumed ++ [(of, of)], entry.1 = entry.2 := by
          intro entry mem
          rcases List.mem_append.mp mem with before | last
          · exact inv.matched entry before
          · rw [List.mem_singleton.mp last]
        simp only [ended] at stepped
        cases fine with
        | true =>
          cases stepped
          exact inv.unlock active .idle rfl rfl (fun _ => ⟨requests, outbox, rfl⟩) matched
        | false =>
          cases stepped
          exact inv.unlock active .failed rfl rfl (fun _ => ⟨requests, outbox, rfl⟩)
            matched
    · cases stepped
  | giveUp i =>
    simp only [Exchange.step] at stepped
    split at stepped
    · rename_i id ask reading
      cases stepped
      exact inv.unlock (by rw [reading]; rfl) .failed rfl rfl nofun inv.matched
    · cases stepped
  | drop i found =>
    simp only [Exchange.step] at stepped
    split at stepped
    · rename_i failed
      cases stepped
      have same : ∀ j, (update s.thread i .idle j).active = (s.thread j).active ∧
          ∀ id ask, update s.thread i .idle j = .reading id ask ↔ s.thread j = .reading id ask := by
        intro j
        by_cases here : j = i
        · subst j
          rw [update_self, failed]
          exact ⟨rfl, fun id ask => ⟨nofun, nofun⟩⟩
        · rw [update_of_ne here]
          exact ⟨rfl, fun id ask => Iff.rfl⟩
      refine ⟨fun j held => inv.owner j ((same j).1 ▸ held),
        fun isLate j id ask reading => inv.late isLate j id ask (((same j).2 id ask).mp reading),
        fun j id ask reading => ?_, fun punctual silent => ?_, inv.matched⟩
      · exact (inv.serving j id ask (((same j).2 id ask).mp reading)).congr rfl rfl rfl
      · exact (inv.quiet punctual fun j id ask reading =>
          silent j id ask (((same j).2 id ask).mpr reading)).congr rfl rfl rfl
    · cases stepped
  | shutdown =>
    cases stepped
    exact inv.of_threads rfl rfl rfl rfl (fun _ _ serving => serving.congr rfl rfl rfl)
      fun quiet => quiet.congr rfl rfl rfl

/-- Exchanges stay matched in every run that sends nothing ended a connection on
which a thread has given up. -/
theorem matched_of_run [DecidableEq τ] {labels : List (Label τ Ask Frame)}
    (onTime : Meets (Exchange.step receive) OnTime fresh labels)
    (ran : run (Exchange.step receive) fresh labels = some s) : Matched s :=
  (run_invariant (I := Inv receive) (fun _ _ _ => Inv.step) inv_fresh onTime ran).matched

end Invariant

end Lib.Exchange
