import SisOp.Common.Connection
import SisOp.Common.Files
import SisOp.Lib.Run
import Mathlib.Logic.Function.Basic

/-!
# What goes out on a sync connection

The sends of a server on one sync connection: `serve_sync` and the pushes of any
number of threads `τ`, in any order the send lock allows. `write_all` calls
`SSL_write` until the frame is out; with the modes `configure_common` sets, each
call ends with one record, and a record the socket does not take stays with the
connection. A write that is given up leaves its record there, and the next
`SSL_write`, of another frame, sends it in place of that frame's first bytes.

Main result: `in_frames`, the bytes written are always a prefix of whole frames
as long as only `push_file` and `push_delete` give up, and nobody takes the lock
before they have shut the connection down.
-/

namespace SisOp.SyncStream

open Lib Function

/-! ## The calls -/

/-- The payloads written before one throws. -/
def written : List (Option Bytes) → List Bytes
  | some payload :: rest => payload :: written rest
  | _ => []

/-- The lines `serve_sync` cuts the text of `problems` into. -/
def lines : Bytes → Bytes → List Bytes
  | [], [] => []
  | line, [] => [line]
  | line, b :: rest => if b = 10 then line :: lines [] rest else lines (line ++ [b]) rest

inductive Call where
  | serveSync (attached : Bool) (problems : Bytes)
  | pushFile (path : Bytes) (source : Option Source)
  | pushDelete (path : Bytes)
  | pushNotice (text : Bytes)
  | pushServerList (servers : List ServerAddress)

namespace Call

/-- What the call sends under the lock; `push_file` leaves out the rest when one
send fails. -/
def messages : Call → List Message
  | serveSync true problems =>
    ⟨.ok, []⟩ :: (written ((lines [] problems).map Writer.str)).map fun line => ⟨.notice, line⟩
  | serveSync false _ =>
    (written [Writer.str (bytes "unknown session")]).map fun reason => ⟨.error, reason⟩
  | pushFile path source => ((sendFile .pushFile [] path source).map Prod.fst).getD []
  | pushDelete path => (written [Writer.str path]).map fun path => ⟨.pushDelete, path⟩
  | pushNotice text => (written [Writer.str text]).map fun text => ⟨.notice, text⟩
  | pushServerList servers =>
    (written [writeServers servers]).map fun servers => ⟨.serverList, servers⟩

/-- The caller looks at the result, and shuts the connection down when it failed. -/
def checks : Call → Bool
  | pushFile .. | pushDelete _ => true
  | _ => false

end Call

/-! ## `SSL_write` -/

/-- `SSL3_RT_MAX_PLAIN_LENGTH`, the data of one record. -/
def MAX_PLAIN_LENGTH : Nat := 16384

/-- What the connection keeps of a write that is to be repeated: how much of its
data is out, and the data of the record the socket has not taken. -/
structure Ssl where
  wnum : Nat
  pending : Bytes
  deriving DecidableEq

def Ssl.init : Ssl := ⟨0, []⟩

inductive WriteResult where
  | written (n : Nat)
  | wantWrite
  | badLength
  deriving DecidableEq

/-- `SSL_write` of data, with partial writes and a moving buffer; `room` is the
number of records the socket takes. A pending record goes first and counts as the
data it is as long as. In the result is also what the peer receives. -/
def Ssl.write (ssl : Ssl) (data : Bytes) (room : Nat) : Bytes × Ssl × WriteResult :=
  if data.length < ssl.wnum + ssl.pending.length then ([], ssl, .badLength)
  else if ssl.pending ≠ [] ∧ room = 0 then ([], ssl, .wantWrite)
  else
    let total := ssl.wnum + ssl.pending.length
    let room := if ssl.pending = [] then room else room - 1
    let record := (data.drop total).take MAX_PLAIN_LENGTH
    if total = data.length then (ssl.pending, .init, .written total)
    else if room = 0 then (ssl.pending, ⟨total, record⟩, .wantWrite)
    else (ssl.pending ++ record, .init, .written (total + record.length))

/-! ## The connection -/

/-- Where a thread is: `writing` in `write_all`, with the data not yet written;
`failed` still holds the lock, `leaving` does not. -/
inductive Stage where
  | idle
  | waiting (call : Call)
  | sending (call : Call) (todo : List Message)
  | writing (call : Call) (data : Bytes) (todo : List Message)
  | failed
  | leaving

/-- The thread has the send lock. -/
def Stage.Holds : Stage → Prop
  | sending .. | writing .. | failed => True
  | _ => False

/-- `stream` is what the peer receives, `down` when the connection is shut down or
lost, so that a write writes nothing; `begun` only records the messages whose write
began. -/
structure State (τ : Type) where
  stream : Bytes
  ssl : Ssl
  down : Bool
  holder : Option τ
  stage : τ → Stage
  begun : List Message

def init {τ : Type} : State τ := ⟨[], .init, false, none, fun _ => .idle, []⟩

/-- What becomes of a write the socket has no room for: `wait_for` says that it has
some again, or it times out (`SEND_TIMEOUT_MS`), or the connection is lost. -/
inductive Outcome where
  | ready
  | timeout
  | lost
  deriving DecidableEq

inductive Label (τ : Type) where
  | call (t : τ) (call : Call)
  | lock (t : τ)
  | send (t : τ)
  | write (t : τ) (room : Nat) (outcome : Outcome)
  | unlock (t : τ)
  | shutdown (t : τ)
  | close

variable {τ : Type} [DecidableEq τ]

/-- Where a thread goes on when a send failed. -/
def Call.afterFailure (call : Call) (todo : List Message) : Stage :=
  if call.checks then .failed else .sending call todo

namespace State

def enter (s : State τ) (t : τ) (stage : Stage) : State τ :=
    { s with stage := update s.stage t stage }

/-- A call of `SSL_write` by a thread in `write_all`, and what follows it there. -/
def write (s : State τ) (t : τ) (call : Call) (data : Bytes) (todo : List Message) (room : Nat)
    (outcome : Outcome) : Option (State τ) :=
  let after := call.afterFailure todo
  if s.down then some (s.enter t after)
  else
    let (sent, ssl, result) := s.ssl.write data room
    let s := { s with stream := s.stream ++ sent, ssl }
    match result, outcome with
    | .written n, .ready =>
      some (s.enter t (if n = data.length then .sending call todo else .writing call
        (data.drop n) todo))
    | .badLength, .lost => some ({ s with down := true }.enter t after)
    | .wantWrite, .ready => some s
    | .wantWrite, .timeout => some (s.enter t after)
    | .wantWrite, .lost => some ({ s with down := true }.enter t after)
    | _, _ => none

end State

def step (s : State τ) : Label τ → Option (State τ)
  | .call t call =>
    match s.stage t with
    | .idle => some (s.enter t (.waiting call))
    | _ => none
  | .lock t =>
    match s.stage t with
    | .waiting call =>
      if s.holder = none then
        some ({ s with holder := some t }.enter t (.sending call call.messages))
      else none
    | _ => none
  | .send t =>
    match s.stage t with
    | .sending call (m :: todo) =>
      match sendLocked m with
      | none => some (s.enter t (call.afterFailure todo))
      | some frame =>
        some ({ s with begun := if s.down then s.begun else s.begun ++ [m] }.enter t
          (.writing call frame todo))
    | _ => none
  | .write t room outcome =>
    match s.stage t with
    | .writing call data todo => s.write t call data todo room outcome
    | _ => none
  | .unlock t =>
    match s.stage t with
    | .sending _ [] => some ({ s with holder := none }.enter t .idle)
    | .failed => some ({ s with holder := none }.enter t .leaving)
    | _ => none
  | .shutdown t =>
    match s.stage t with
    | .leaving => some ({ s with down := true }.enter t .idle)
    | _ => none
  | .close => some { s with down := true }

/-- A prefix of a concatenation of whole frames. -/
def InFrames (stream : Bytes) : Prop :=
  ∃ frames : List Message, (∀ m ∈ frames, m.Fits) ∧ stream <+: wire frames

/-- Whoever gives up a write will shut the connection down, and nobody takes the
lock before it has. -/
def Orderly (s : State τ) : Label τ → Prop
  | .write t _ .timeout =>
    ∀ call data todo, s.stage t = .writing call data todo → s.down = false → call.checks = true
  | .lock _ => ∀ t, s.stage t = .leaving → s.down = true
  | _ => True

/-! ## A write is taken up again -/

/-- What the connection keeps is the data's: so much of it is out, and the pending
record is what comes next. -/
structure Resumes (ssl : Ssl) (data : Bytes) : Prop where
  out : ssl.wnum ≤ data.length
  pending : ssl.pending <+: data.drop ssl.wnum

theorem resumes_init (data : Bytes) : Resumes .init data := ⟨Nat.zero_le _, List.nil_prefix⟩

section Write

variable {ssl ssl' : Ssl} {data sent : Bytes} {room : Nat} {result : WriteResult}

theorem append_drop_of_prefix {a b : Bytes} (front : a <+: b) : a ++ b.drop a.length = b := by
  obtain ⟨more, rfl⟩ := front
  rw [List.drop_left]

/-- With the data it is for, `SSL_write` writes on where it was: the peer receives
the data up to what is reported, or up to what is kept. -/
theorem write_of_resumes (resumes : Resumes ssl data)
    (written : ssl.write data room = (sent, ssl', result)) :
    (∃ n, result = .written n ∧ ssl' = .init ∧ sent ++ data.drop n = data.drop ssl.wnum) ∨
      result = .wantWrite ∧ Resumes ssl' data ∧
        sent ++ data.drop ssl'.wnum = data.drop ssl.wnum := by
  obtain ⟨more, rest⟩ := resumes.pending
  have total : data.drop (ssl.wnum + ssl.pending.length) = more := by
    rw [← List.drop_drop, ← rest, List.drop_left]
  have fits : ssl.wnum + ssl.pending.length ≤ data.length := by
    have lengths := congrArg List.length rest
    rw [List.length_append, List.length_drop] at lengths
    have := resumes.out
    omega
  unfold Ssl.write at written
  rw [if_neg (Nat.not_lt.mpr fits)] at written
  split at written
  · cases written
    exact .inr ⟨rfl, resumes, rfl⟩
  dsimp only at written
  rw [total] at written
  generalize (if ssl.pending = [] then room else room - 1) = room at written
  split at written
  · cases written
    exact .inl ⟨_, rfl, rfl, by rw [total, rest]⟩
  split at written
  · cases written
    exact .inr ⟨rfl, ⟨fits, total ▸ List.take_prefix ..⟩, by rw [total, rest]⟩
  · cases written
    refine .inl ⟨_, rfl, rfl, ?_⟩
    rw [← List.drop_drop, total, List.append_assoc, ← rest,
      append_drop_of_prefix (List.take_prefix ..)]

end Write

/-! ## The invariant -/

variable {s s' : State τ} {t : τ} {stage : Stage} {m : Message} {frame : Bytes}

/-- The frames begun are whole; or a thread is inside the last one; or that one is
cut and nothing follows, as the connection is down or its thread is about to shut it
down. -/
inductive Sound (s : State τ) : Prop where
  | whole (stream : s.stream = wire s.begun) (ssl : s.ssl = .init)
    (resting : ∀ t call data todo, s.stage t ≠ .writing call data todo)
  | inside {t : τ} {call : Call} {data : Bytes} {todo : List Message}
    (writing : s.stage t = .writing call data todo) (resumes : Resumes s.ssl data)
    (stream : s.stream ++ data.drop s.ssl.wnum = wire s.begun)
  | cut (stream : s.stream <+: wire s.begun)
    (closing : s.down = true ∨ ∃ t, s.stage t = .failed ∨ s.stage t = .leaving ∧ s.holder = none)

structure Inv (s : State τ) : Prop where
  locked : ∀ t, (s.stage t).Holds → s.holder = some t
  fits : ∀ m ∈ s.begun, m.Fits
  sound : Sound s

section Steps

variable {call : Call} {data : Bytes} {todo : List Message}

omit [DecidableEq τ] in
theorem Sound.front (sound : Sound s) : s.stream <+: wire s.begun := by
  cases sound with
  | whole stream => exact stream ▸ List.prefix_rfl
  | inside _ _ stream => exact ⟨_, stream⟩
  | cut stream => exact stream

omit [DecidableEq τ] in
theorem Inv.inFrames (inv : Inv s) : InFrames s.stream := ⟨s.begun, inv.fits, inv.sound.front⟩

theorem enter_self : (s.enter t stage).stage t = stage := update_self ..

theorem enter_of_ne {u : τ} (apart : u ≠ t) : (s.enter t stage).stage u = s.stage u :=
  update_of_ne apart ..

/-- Who enters a stage with the lock has it. -/
theorem locked_enter (locked : ∀ u, (s.stage u).Holds → s.holder = some u)
    (entered : stage.Holds → s.holder = some t) (u : τ)
    (active : ((s.enter t stage).stage u).Holds) : s.holder = some u := by
  by_cases same : u = t
  · subst same
    rw [enter_self] at active
    exact entered active
  · rw [enter_of_ne same] at active
    exact locked u active

/-- Nothing more is written on a connection that is down. -/
theorem Inv.enter_of_down (inv : Inv s) (down : s.down = true)
    (entered : stage.Holds → s.holder = some t) :
    Inv (s.enter t stage) :=
  ⟨locked_enter inv.locked entered, inv.fits, .cut inv.sound.front (.inl down)⟩

/-- A thread goes on that was not inside a frame and has not given up, to where it
is not either. -/
theorem Inv.enter (inv : Inv s) (entered : stage.Holds → s.holder = some t)
    (before : (∀ call data todo, s.stage t ≠ .writing call data todo) ∧
      s.stage t ≠ .failed ∧ s.stage t ≠ .leaving)
    (after : ∀ call data todo, stage ≠ .writing call data todo) : Inv (s.enter t stage) := by
  refine ⟨locked_enter inv.locked entered, inv.fits, ?_⟩
  have other : ∀ {u}, s.stage u ≠ s.stage t → (s.enter t stage).stage u = s.stage u :=
    fun apart => enter_of_ne fun same => apart (same ▸ rfl)
  cases inv.sound with
  | whole stream ssl resting =>
    refine .whole stream ssl fun u call data todo writing => ?_
    by_cases same : u = t
    · subst same
      rw [enter_self] at writing
      exact after call data todo writing
    · rw [enter_of_ne same] at writing
      exact resting u call data todo writing
  | inside writing resumes stream =>
    refine .inside ((other fun same => ?_).trans writing) resumes stream
    exact before.1 _ _ _ (same.symm.trans writing)
  | cut stream closing =>
    refine .cut stream (closing.imp_right ?_)
    rintro ⟨u, failed | ⟨leaving, free⟩⟩
    · exact ⟨u, .inl ((other fun same => before.2.1 (same.symm.trans failed)).trans failed)⟩
    · exact ⟨u, .inr ⟨(other fun same => before.2.2 (same.symm.trans leaving)).trans leaving, free⟩⟩

omit [DecidableEq τ] in
/-- A thread with the lock that has not given up finds the connection, when it is
open, at the end of a frame or in its own. -/
theorem Inv.position (inv : Inv s) (holds : (s.stage t).Holds) (going : s.stage t ≠ .failed)
    (up : s.down = false) :
    (s.stream = wire s.begun ∧ s.ssl = .init ∧
        ∀ u call data todo, s.stage u ≠ .writing call data todo) ∨
      ∃ call data todo, s.stage t = .writing call data todo ∧ Resumes s.ssl data ∧
        s.stream ++ data.drop s.ssl.wnum = wire s.begun := by
  have held := inv.locked t holds
  cases inv.sound with
  | whole stream ssl resting => exact .inl ⟨stream, ssl, resting⟩
  | @inside u _ _ _ writing resumes stream =>
    have active : (s.stage u).Holds := writing ▸ trivial
    obtain rfl := Option.some.inj (held.symm.trans (inv.locked u active))
    exact .inr ⟨_, _, _, writing, resumes, stream⟩
  | cut stream closing =>
    rcases closing with down | ⟨u, failed | ⟨-, free⟩⟩
    · cases up.symm.trans down
    · cases held.symm.trans (inv.locked u (failed ▸ trivial))
      exact absurd failed going
    · cases held.symm.trans free

theorem sendLocked_eq_some (sent : sendLocked m = some frame) : m.Fits ∧ frame = writeFrame m := by
  unfold sendLocked at sent
  split at sent <;> cases sent
  rename_i short
  exact ⟨Nat.not_lt.mp short, rfl⟩

theorem afterFailure_ne_writing (call' : Call) (data : Bytes) (todo' : List Message) :
    call.afterFailure todo ≠ .writing call' data todo' := by
  unfold Call.afterFailure
  split <;> nofun

/-- A thread begins a frame. -/
theorem Inv.send (inv : Inv s) (stepped : step s (.send t) = some s') : Inv s' := by
  simp only [step] at stepped
  split at stepped
  swap
  · cases stepped
  rename_i call m todo sending
  have holds : (s.stage t).Holds := sending ▸ trivial
  have held : s.holder = some t := inv.locked t holds
  split at stepped
  · cases stepped
    exact inv.enter (fun _ => held) (by rw [sending]; exact ⟨nofun, nofun, nofun⟩)
      afterFailure_ne_writing
  rename_i frame sent
  obtain ⟨fits, rfl⟩ := sendLocked_eq_some sent
  cases stepped
  by_cases down : s.down = true
  · rw [if_pos down]
    exact inv.enter_of_down down fun _ => held
  · rw [if_neg down]
    refine ⟨locked_enter (s := { s with begun := s.begun ++ [m] }) inv.locked fun _ => held, ?_, ?_⟩
    · intro other mem
      exact (List.mem_append.mp mem).elim (inv.fits other) fun last =>
        List.mem_singleton.mp last ▸ fits
    · rcases inv.position holds (by rw [sending]; nofun) (Bool.eq_false_iff.mpr down) with
        ⟨stream, ssl, -⟩ | ⟨_, _, _, writing, -⟩
      · refine .inside enter_self (ssl ▸ resumes_init _) ?_
        show s.stream ++ (writeFrame m).drop s.ssl.wnum = wire (s.begun ++ [m])
        rw [ssl, wire_concat, stream]
        rfl
      · cases sending.symm.trans writing

/-- A thread writes on inside its frame, or gives up. -/
theorem Inv.write {room : Nat} {outcome : Outcome} (inv : Inv s)
    (orderly : Orderly s (.write t room outcome))
    (stepped : step s (.write t room outcome) = some s') : Inv s' := by
  simp only [step] at stepped
  split at stepped
  swap
  · cases stepped
  rename_i call data todo writing
  have holds : (s.stage t).Holds := writing ▸ trivial
  have held : s.holder = some t := inv.locked t holds
  unfold State.write at stepped
  dsimp only at stepped
  split at stepped
  · rename_i down
    cases stepped
    exact inv.enter_of_down down fun _ => held
  rename_i up
  have up : s.down = false := Bool.eq_false_iff.mpr up
  rcases inv.position holds (by rw [writing]; nofun) up with
    ⟨-, -, resting⟩ | ⟨_, _, _, writing', resumes, stream⟩
  · exact absurd writing (resting t call data todo)
  cases writing.symm.trans writing'
  generalize written : s.ssl.write data room = result at stepped
  obtain ⟨sent, ssl, result⟩ := result
  have whole : ∀ n, sent ++ data.drop n = data.drop s.ssl.wnum →
      (s.stream ++ sent) ++ data.drop n = wire s.begun := by
    intro n rest
    rw [List.append_assoc, rest, stream]
  rcases write_of_resumes resumes written with ⟨n, rfl, rfl, rest⟩ | ⟨rfl, resumes', rest⟩
  · cases outcome <;> cases stepped
    refine ⟨locked_enter (s := { s with stream := s.stream ++ sent, ssl := .init }) inv.locked
      fun _ => held, inv.fits, ?_⟩
    split
    · rename_i all
      refine .whole ?_ rfl fun u call' data' todo' writing' => ?_
      · have stream := whole n rest
        rwa [all, List.drop_length, List.append_nil] at stream
      · by_cases same : u = t
        · subst same
          cases enter_self.symm.trans writing'
        · have active : (s.stage u).Holds := (enter_of_ne same).symm.trans writing' ▸ trivial
          exact same (Option.some.inj ((inv.locked u active).symm.trans held))
    · exact .inside enter_self (resumes_init _) (whole n rest)
  · have inside := whole _ rest
    cases outcome with
    | ready =>
      cases stepped
      exact ⟨inv.locked, inv.fits, .inside writing resumes' inside⟩
    | timeout =>
      cases stepped
      unfold Call.afterFailure
      rw [if_pos (orderly call data todo writing up)]
      exact ⟨locked_enter (s := { s with stream := s.stream ++ sent, ssl }) inv.locked
        fun _ => held, inv.fits, .cut ⟨_, inside⟩ (.inr ⟨t, .inl enter_self⟩)⟩
    | lost =>
      cases stepped
      have next : Inv { s with stream := s.stream ++ sent, ssl, down := true } :=
        ⟨inv.locked, inv.fits, .cut ⟨_, inside⟩ (.inl rfl)⟩
      exact next.enter_of_down rfl fun _ => held

/-- The thread that releases the lock was the only one with it. -/
theorem Inv.unlocked (inv : Inv s) (held : s.holder = some t) (free : ¬stage.Holds) (u : τ)
    (active : ((State.enter { s with holder := none } t stage).stage u).Holds) :
    (none : Option τ) = some u := by
  by_cases same : u = t
  · subst same
    rw [enter_self] at active
    exact absurd active free
  · rw [enter_of_ne same] at active
    exact absurd (Option.some.inj ((inv.locked u active).symm.trans held)) same

/-- A thread takes the lock. -/
theorem Inv.lock (inv : Inv s) (orderly : Orderly s (.lock t))
    (stepped : step s (.lock t) = some s') : Inv s' := by
  simp only [step] at stepped
  split at stepped
  swap
  · cases stepped
  rename_i call waiting
  split at stepped <;> cases stepped
  rename_i free
  have unheld : ∀ u, ¬(s.stage u).Holds := fun u active => by
    cases free.symm.trans (inv.locked u active)
  have sound : Sound { s with holder := some t } := by
    cases inv.sound with
    | whole stream ssl resting => exact .whole stream ssl resting
    | inside writing resumes stream => exact .inside writing resumes stream
    | cut stream closing =>
      refine .cut stream (.inl ?_)
      rcases closing with down | ⟨u, failed | ⟨leaving, -⟩⟩
      · exact down
      · exact absurd (failed ▸ trivial) (unheld u)
      · exact orderly u leaving
  have next : Inv { s with holder := some t } :=
    ⟨fun u active => absurd active (unheld u), inv.fits, sound⟩
  exact next.enter (fun _ => rfl) (by rw [waiting]; exact ⟨nofun, nofun, nofun⟩) nofun

/-- A thread releases the lock. -/
theorem Inv.unlock (inv : Inv s) (stepped : step s (.unlock t) = some s') : Inv s' := by
  simp only [step] at stepped
  split at stepped <;> cases stepped
  · rename_i call sending
    have holds : (s.stage t).Holds := sending ▸ trivial
    have held : s.holder = some t := inv.locked t holds
    refine ⟨inv.unlocked held False.elim, inv.fits, ?_⟩
    rcases Bool.eq_false_or_eq_true s.down with down | up
    · exact .cut inv.sound.front (.inl down)
    · rcases inv.position holds (by rw [sending]; nofun) up with
        ⟨stream, ssl, resting⟩ | ⟨_, _, _, writing, -⟩
      · refine .whole stream ssl fun u call data todo writing => ?_
        by_cases same : u = t
        · subst same
          cases enter_self.symm.trans writing
        · exact resting u call data todo ((enter_of_ne same).symm.trans writing)
      · cases sending.symm.trans writing
  · rename_i failed
    have holds : (s.stage t).Holds := failed ▸ trivial
    have held : s.holder = some t := inv.locked t holds
    exact ⟨inv.unlocked held False.elim, inv.fits,
      .cut inv.sound.front (.inr ⟨t, .inr ⟨enter_self, rfl⟩⟩)⟩

omit [DecidableEq τ] in
theorem Inv.shut (inv : Inv s) : Inv { s with down := true } :=
  ⟨inv.locked, inv.fits, .cut inv.sound.front (.inl rfl)⟩

theorem Inv.step {label : Label τ} (inv : Inv s) (orderly : Orderly s label)
    (stepped : step s label = some s') : Inv s' := by
  cases label with
  | send t => exact inv.send stepped
  | write t room outcome => exact inv.write orderly stepped
  | lock t => exact inv.lock orderly stepped
  | unlock t => exact inv.unlock stepped
  | call t call =>
    simp only [SyncStream.step] at stepped
    split at stepped <;> cases stepped
    rename_i resting
    exact inv.enter False.elim (by rw [resting]; exact ⟨nofun, nofun, nofun⟩) nofun
  | shutdown t =>
    simp only [SyncStream.step] at stepped
    split at stepped <;> cases stepped
    exact inv.shut.enter_of_down rfl False.elim
  | close =>
    cases stepped
    exact inv.shut

end Steps

/-! ## Runs -/

omit [DecidableEq τ] in
theorem inv_init : Inv (init : State τ) where
  locked _ active := active.elim
  fits _ mem := (List.not_mem_nil mem).elim
  sound := .whole rfl rfl nofun

/-- What goes out on the connection is a prefix of whole frames, as long as a write
that is given up is `push_file`'s or `push_delete`'s, and nobody takes the lock
before they shut the connection down. -/
theorem in_frames {labels : List (Label τ)} {s : State τ} (orderly : Meets step Orderly init labels)
    (ran : run step init labels = some s) : InFrames s.stream :=
  (run_invariant (fun _ _ _ inv => inv.step) inv_init orderly ran).inFrames

section Examples

/-- The list of one server is given up with its record pending; then there is room
again, and a notice is sent. -/
def givenUp : List (Label Bool) :=
  [.call true (.pushServerList [⟨1000, bytes "a", 4000⟩]), .lock true, .send true,
    .write true 0 .timeout, .unlock true,
    .call false (.pushNotice (bytes "all 2 expected servers are up")), .lock false, .send false,
    .write false 2 .ready]

/-- The list comes whole, and of the notice only what is longer than the list. -/
theorem torn_frame :
    ¬∀ (labels : List (Label Bool)) (s : State Bool),
      run step init labels = some s → InFrames s.stream := by
  intro claim
  obtain ⟨s, ran, out⟩ : ∃ s, run step init givenUp = some s ∧
      s.stream = [0, 33, 0, 0, 0, 0, 0, 11, 0, 1, 0, 0, 3, 232, 0, 1, 97, 15, 160] ++
        bytes "ected servers are up" := ⟨_, rfl, by decide +kernel⟩
  obtain ⟨frames, fits, rest, whole⟩ := claim _ s ran
  rw [out] at whole
  cases frames with
  | nil => cases whole
  | cons m frames =>
    have read := readFrame_wire (fits m List.mem_cons_self) frames
    rw [← whole] at read
    have left : bytes "ected servers are up" ++ rest = wire frames := by
      injection read with read
      exact congrArg Prod.snd read
    cases frames with
    | nil => cases left
    | cons m' frames =>
      have read' :=
        readFrame_wire (fits m' (List.mem_cons_of_mem _ List.mem_cons_self)) frames
      rw [← left] at read'
      cases read'

/-- After a whole notice `push_delete` gives up and shuts the connection down; the
notice that waits is not written. -/
def shutDown : List (Label Bool) :=
  [.call false (.pushNotice [7]), .lock false, .send false, .write false 1 .ready, .unlock false,
    .call true (.pushDelete [7]), .lock true, .call false (.pushNotice [7, 7]), .send true,
    .write true 0 .timeout, .unlock true, .shutdown true, .lock false, .send false,
    .write false 2 .ready]

theorem in_frames_shutdown :
    ∃ s : State Bool, run step init shutDown = some s ∧
      s.stream = [0, 34, 0, 0, 0, 0, 0, 3, 0, 1, 7] ∧ InFrames s.stream := by
  obtain ⟨s, ran, out⟩ : ∃ s, run step init shutDown = some s ∧
      s.stream = [0, 34, 0, 0, 0, 0, 0, 3, 0, 1, 7] := ⟨_, rfl, by decide +kernel⟩
  refine ⟨s, ran, out, in_frames ?_ ran⟩
  refine ⟨trivial, ?_, trivial, trivial, trivial, trivial, ?_, trivial, trivial, ?_,
    trivial, trivial, ?_, trivial, trivial, trivial⟩
  · rintro (_ | _) ⟨⟩
  · rintro (_ | _) ⟨⟩
  · rintro _ _ _ ⟨⟩ -
    rfl
  · exact fun _ _ => rfl

end Examples

end SisOp.SyncStream
