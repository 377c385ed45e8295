import SisOp.Client.Exchanges
import SisOp.Lib.Exchange

/-!
# Replies and requests

The threads that share a client's command connection (`transact` and `ping`
under `cmd_mutex_`) or a replica link (`put_on_link` and the `call`s of
`cluster.cpp` under `Link::txn`), as exchanges over one stream. A thread whose
exchange failed releases the lock first; `mark_disconnected` or `drop_link` comes
after.

Main result: `replies_matched`, every frame taken as a reply answers the request
of that exchange, as long as none is started over a live connection on which
another has given up.
-/

namespace SisOp.Replies

open Lib Std
open Exchanges (ClientPhase)

/-- What an exchange reads. -/
inductive Ask where
  | command (phase : ClientPhase)
  | ping
  | put (aborted : Bool)
  | call
  deriving DecidableEq, Repr

/-- A frame of the reply: go on, or the exchange is over, and whether it leaves the
connection alone. -/
def Ask.receive (ask : Ask) (frame : Message) : Ask ⊕ Bool :=
  match ask with
  | command phase =>
    match phase.receive frame true with
    | none | some (.returned .failed) => .inr false
    | some (.returned _) => .inr true
    | some next => .inl (.command next)
  | ping => .inr (frame.type == .pong)
  | put aborted => .inr (frame.type == .ok || aborted)
  | call => .inr (frame.type == .ok)

/-- Threads `σ` on one connection. -/
abbrev State (σ : Type) := Exchange.State σ Ask Message
abbrev Label (σ : Type) := Exchange.Label σ Ask Message

def step {σ : Type} [DecidableEq σ] : State σ → Label σ → Option (State σ) :=
  Exchange.step Ask.receive

/-! ## What the peers answer -/

theorem exact_last {phase : ClientPhase} {frame : Message} (result : CallResult)
    (last : phase.receive frame true = some (.returned result)) :
    Exchange.exact Ask.receive (.command phase) [frame] = true := by
  rw [Exchange.exact, Ask.receive, last]
  cases result <;> rfl

theorem exact_more {phase : ClientPhase} {frame : Message} {frames : List Message} {size : Nat}
    {received : Bytes} (goes : phase.receive frame true = some (.receiving size received))
    (rest : Exchange.exact Ask.receive (.command (.receiving size received)) frames = true) :
    Exchange.exact Ask.receive (.command phase) (frame :: frames) = true := by
  rw [Exchange.exact, Ask.receive, goes]
  exact rest

theorem exact_of_body {size : Nat} {received : Bytes} {frames : List Message}
    (rest : BodyRest size received frames) :
    Exchange.exact Ask.receive (.command (.receiving size received)) frames = true := by
  induction rest with
  | done whole =>
    refine exact_last .ok ?_
    simp [ClientPhase.receive, Exchanges.receiveBody, recvFrame, whole]
  | aborted received => exact exact_last .rejected rfl
  | @data received data frames within rest ih =>
    refine exact_more ?_ ih
    have fits : ¬size - received.length < data.length := by omega
    simp only [ClientPhase.receive, Exchanges.receiveBody, recvFrame, if_neg fits]

/-- A reply of `serve_client` is read to the end, and not past it. -/
theorem exact_of_reply {ask : Exchanges.Ask} {frames : List Message}
    (reply : Exchanges.Reply ask frames) :
    Exchange.exact Ask.receive (.command (.awaiting ask)) frames = true := by
  cases reply with
  | upload m | removeRemote m => exact exact_last _ rfl
  | listRemote m readable =>
    obtain ⟨result, last⟩ : ∃ result,
        (ClientPhase.awaiting .listRemote).receive m true = some (.returned result) := by
      simp only [ClientPhase.receive, Exchanges.Ask.receive]
      split
      · exact ⟨_, rfl⟩
      · split <;> exact ⟨_, rfl⟩
    exact exact_last _ last
  | refused m error =>
    refine exact_last .rejected ?_
    simp only [ClientPhase.receive, Exchanges.Ask.receive, error, if_true]
  | file readable whole =>
    refine exact_more ?_ (exact_of_body whole)
    simp only [ClientPhase.receive, Exchanges.Ask.receive, readable, reduceCtorEq, if_false, ne_eq,
      not_true_eq_false]

/-! ## Matching -/

/-- **Replies are matched to their requests.** Any threads run any exchanges on a
connection, replies come at any time or not at all. In every run in which no
request is sent over a live connection on which an exchange has given up, every
frame an exchange takes was sent in answer to its own request. -/
theorem replies_matched {σ : Type} [DecidableEq σ] {s : State σ} {labels : List (Label σ)}
    (onTime : Meets step Exchange.OnTime (Exchange.fresh : State σ) labels)
    (ran : run step (Exchange.fresh : State σ) labels = some s) : Exchange.Matched s :=
  Exchange.matched_of_run onTime ran

section Examples

def okReply : Message := ⟨.ok, []⟩

/-- The upload of one thread is answered after it has timed out; the other thread,
next on the lock, sends its delete before the connection is shut down. -/
def lateReply : List (Label Bool) :=
  [.acquire false, .send false (.command (.awaiting .upload)), .giveUp false,
    .acquire true, .send true (.command (.awaiting .removeRemote)),
    .answer [okReply], .deliver, .receive true]

/-- The delete takes the Ok of the upload for its own. -/
theorem mismatched_of_late :
    ¬∀ (labels : List (Label Bool)) (s : State Bool),
      run step (Exchange.fresh : State Bool) labels = some s → Exchange.Matched s := by
  intro claim
  have reached : (run step (Exchange.fresh : State Bool) lateReply).any
      (fun s => decide ((1, 0) ∈ s.consumed)) = true := by decide +kernel
  obtain ⟨s, ran, taken⟩ := (Option.any_eq_true _ _).mp reached
  have same := claim lateReply s ran (1, 0) (of_decide_eq_true taken)
  exact absurd same (by decide)

/-- A thread reads its reply; another gives up, and drops the connection before
the next request. -/
def droppedInTime : List (Label Bool) :=
  [.acquire true, .send true .ping, .answer [⟨.pong, []⟩], .deliver, .receive true,
    .acquire false, .send false (.command (.awaiting .upload)), .giveUp false, .drop false true,
    .acquire true, .send true (.command (.awaiting .removeRemote)), .answer [okReply], .deliver]

theorem matched_of_drop : ∃ s, run step (Exchange.fresh : State Bool) droppedInTime = some s ∧
    s.consumed = [(0, 0)] ∧ Exchange.Matched s := by
  have reached : (run step (Exchange.fresh : State Bool) droppedInTime).any
      (fun s => decide (s.consumed = [(0, 0)])) = true := by decide +kernel
  obtain ⟨s, ran, taken⟩ := (Option.any_eq_true _ _).mp reached
  refine ⟨s, ran, of_decide_eq_true taken, replies_matched ?_ ran⟩
  decide +kernel

end Examples

end SisOp.Replies
