import SisOp.Common.Text

/-!
# Finding a server

`Client::connect_once` of `client/client.cpp`: the walk over the known servers and
the address of the command line, with redirects put in right behind the server that
gave them. What a server does to an attempt is any function of the attempt, so it
may change its mind.

Main result: `reaches_available`, the walk ends, and it gets to a server that accepts
unless the servers ahead of it and the redirects use up the attempts.
-/

namespace SisOp.Connect

open Lib

abbrev Address := Bytes × UInt16

structure Options where
  user : Bytes
  password : Bytes
  host : Bytes
  port : UInt16

/-- The attempts `connect_once` makes at most. -/
def MAX_ATTEMPTS : Nat := 20

/-- What a server does to an attempt: whether each connection comes about, and the
replies, `none` for one that does not come. -/
structure Contact where
  cmd : Bool
  login : Bytes → Option Message
  sync : Bool
  attach : Bytes → Option Message

inductive Attempt where
  | failed
  | redirected (primary : Address)
  | refused (reason : Bytes)
  | connected (servers : List ServerAddress)
  deriving DecidableEq

/-! ## One attempt -/

def errorReason (reply : Message) : Bytes :=
  let unexpected := bytes "unexpected reply " ++ msgName reply.type
  if reply.type = .error then
    match Reader.str.run reply.payload with
    | some (reason, _) => reason
    | none => unexpected
  else unexpected

def readRedirect : Reader Address := do
  let host ← Reader.str
  let port ← Reader.u16
  pure (host, port)

def readLoginOk : Reader (Bytes × List ServerAddress) := do
  let token ← Reader.str
  let servers ← readServers
  pure (token, servers)

/-- The sync connection, once the login was accepted. -/
def attachSync (c : Contact) (token : Bytes) (servers : List ServerAddress) : Attempt :=
  match c.sync, Writer.str token with
  | true, some attach =>
    match c.attach attach with
    | some ack => if ack.type = .ok then .connected servers else .failed
    | none => .failed
  | _, _ => .failed

/-- From the reply to `Login` on; a `ProtocolError` goes on to the next candidate. -/
def answered (c : Contact) (reply : Message) : Attempt :=
  if reply.type = .loginOk then
    match readLoginOk.run reply.payload with
    | some ((token, servers), _) => attachSync c token servers
    | none => .failed
  else if reply.type = .redirect then
    match readRedirect.run reply.payload with
    | some (primary, _) => if primary.1.isEmpty then .failed else .redirected primary
    | none => .failed
  else .refused (errorReason reply)

def loginPayload (o : Options) : Option Bytes := do
  let user ← Writer.str o.user
  let password ← Writer.str o.password
  pure (user ++ password)

/-- One candidate; `none` when writing the login throws, which nothing catches. -/
def attempt (o : Options) (c : Contact) : Option Attempt :=
  if c.cmd then (loginPayload o).map fun login => ((c.login login).map (answered c)).getD .failed
  else some .failed

/-! ## The walk -/

inductive ConnectResult where
  | connected | unreachable | refused
  deriving DecidableEq, Repr

/-- What `connect_once` leaves: `session` is what it keeps of the server connected to;
`attempts` only records. -/
structure Outcome where
  result : ConnectResult
  session : Option (Address × List ServerAddress)
  said : List Bytes
  attempts : List (Address × Attempt)

namespace Outcome

def start : Outcome := ⟨.unreachable, none, [], []⟩

/-- What is said and kept after an attempt. -/
def note (s : Outcome) (o : Options) (address : Address) (a : Attempt) : Outcome :=
  let s := { s with attempts := s.attempts ++ [(address, a)] }
  match a with
  | .refused reason =>
    { s with result := .refused, said := s.said ++ [bytes "Login refused by " ++
        hostPort address.1 address.2 ++ bytes ": " ++ reason] }
  | .connected servers =>
    { s with result := .connected, session := some (address, servers), said := s.said ++
        [bytes "Connected to " ++ hostPort address.1 address.2 ++ bytes " as " ++ o.user ++
          bytes "."] }
  | _ => s

end Outcome

def Attempt.isConnected : Attempt → Bool
  | .connected _ => true
  | _ => false

/-- The candidates after the attempt at the `i`-th. -/
def redirect (candidates : List Address) (i : Nat) : Attempt → List Address
  | .redirected primary => candidates.insertIdx (i + 1) primary
  | _ => candidates

section Walk

variable (o : Options) (contacts : Nat → Address → Contact) (stopping : Nat → Bool)

/-- The loop, `left` attempts before the limit; `i` is the index of the next
candidate. -/
def walk : (left i : Nat) → List Address → Outcome → Option Outcome
  | 0, _, _, s => some s
  | left + 1, i, candidates, s =>
    match candidates[i]? with
    | none => some s
    | some address =>
      if stopping i then some s
      else
        match attempt o (contacts i address) with
        | none => none
        | some a =>
          if a.isConnected then some (s.note o address a)
          else walk left (i + 1) (redirect candidates i a) (s.note o address a)

/-- The known servers as `std::sort` may leave them: those with equal ids in any
order. -/
structure Known (servers : List ServerAddress) where
  list : List ServerAddress
  perm : list.Perm servers
  sorted : list.Pairwise fun a b => b.id ≤ a.id

/-- The candidates before the first attempt. -/
def candidates {servers : List ServerAddress} (known : Known servers) : List Address :=
  known.list.map (fun server => (server.host, server.port)) ++ [(o.host, o.port)]

/-- `connect_once`; `none` when it throws. -/
def connectOnce {servers : List ServerAddress} (known : Known servers) : Option Outcome :=
  walk o contacts stopping MAX_ATTEMPTS 0 (candidates o known) .start

end Walk

/-! ## Servers that accept -/

/-- The server accepts the login and the sync attach, as `serve_client` and `serve_sync`
answer them. -/
def Accepts (o : Options) (c : Contact) : Prop :=
  c.cmd = true ∧ c.sync = true ∧ ∃ login token attach servers list ack,
    loginPayload o = some login ∧ Writer.str token = some attach ∧
      writeServers servers = some list ∧ c.login login = some ⟨.loginOk, attach ++ list⟩ ∧
        c.attach attach = some ⟨.ok, ack⟩

def Attempt.isRedirect : Attempt → Bool
  | .redirected _ => true
  | _ => false

def redirects (attempts : List (Address × Attempt)) : Nat :=
  attempts.countP fun entry => entry.2.isRedirect

section Walk

variable {o : Options} {contacts : Nat → Address → Contact} {stopping : Nat → Bool} {c : Contact}
  {s t : Outcome} {address target : Address} {a : Attempt} {list : List Address} {left i k : Nat}

theorem attempt_of_accepts (accepts : Accepts o c) :
    ∃ servers, attempt o c = some (.connected servers) := by
  obtain ⟨cmd, sync, login, token, attach, servers, list, ack, payload, tokenWritten, listWritten,
    reply, acked⟩ := accepts
  obtain ⟨front, rest, eq, read⟩ := parses_servers listWritten
  refine ⟨servers.take servers.length.toUInt16.toNat, ?_⟩
  have both : Parses readLoginOk (attach ++ front)
      (token, servers.take servers.length.toUInt16.toNat) :=
    (parses_str tokenWritten).bind (k := fun token => do
      let servers ← readServers
      pure (token, servers)) read.bind_pure
  have parsed := both rest
  rw [List.append_assoc, ← eq] at parsed
  rw [attempt, if_pos cmd, payload, Option.map_some, reply, Option.map_some, Option.getD_some,
    answered, if_pos rfl, parsed]
  simp only [attachSync, sync, tokenWritten, acked, if_true]

/-- Then the login can be written, whichever server it is sent to. -/
theorem attempt_isSome (accepts : Accepts o c) (d : Contact) : ∃ a, attempt o d = some a := by
  obtain ⟨-, -, login, token, attach, servers, list, ack, payload, -⟩ := accepts
  unfold attempt
  split
  · exact ⟨_, by rw [payload]; rfl⟩
  · exact ⟨_, rfl⟩

@[simp] theorem attempts_note : (s.note o address a).attempts = s.attempts ++ [(address, a)] := by
  cases a <;> rfl

theorem redirects_concat (attempts : List (Address × Attempt)) :
    redirects (attempts ++ [(address, a)]) = redirects attempts + a.isRedirect.toNat := by
  rw [redirects, List.countP_append, List.countP_singleton, redirects]
  cases a <;> rfl

theorem connected_note (connected : a.isConnected = true) :
    (s.note o address a).result = .connected ∧ (s.note o address a).session ≠ none := by
  cases a with
  | connected servers => exact ⟨rfl, Option.some_ne_none _⟩
  | failed | redirected | refused => cases connected

/-- A redirect puts the candidates after it one place further away. -/
theorem getElem?_redirect {j : Nat} (a : Attempt) (later : i < j) :
    (redirect list i a)[j + a.isRedirect.toNat]? = list[j]? := by
  cases a with
  | redirected primary => exact List.getElem?_insertIdx_of_gt (Nat.succ_lt_succ later)
  | failed | refused | connected => rfl

/-- One turn of the loop. -/
theorem walk_succ (next : list[i]? = some address) (running : stopping i = false)
    (tried : attempt o (contacts i address) = some a) :
    walk o contacts stopping (left + 1) i list s =
      if a.isConnected then some (s.note o address a)
      else walk o contacts stopping left (i + 1) (redirect list i a) (s.note o address a) := by
  rw [walk, next]
  simp only [running, Bool.false_eq_true, if_false, tried]

/-- No more attempts than are left. -/
theorem length_walk (ended : walk o contacts stopping left i list s = some t) :
    t.attempts.length ≤ s.attempts.length + left := by
  induction left generalizing i list s with
  | zero =>
    cases ended
    exact Nat.le_refl _
  | succ left ih =>
    rw [walk] at ended
    split at ended
    · cases ended
      exact Nat.le_add_right _ _
    · split at ended
      · cases ended
        exact Nat.le_add_right _ _
      · split at ended
        · cases ended
        · split at ended
          · cases ended
            rw [attempts_note, List.length_append, List.length_singleton]
            omega
          · have rest := ih ended
            rw [attempts_note, List.length_append, List.length_singleton] at rest
            omega

/-- A candidate that accepts is got to while attempts are left; each redirect puts it
one place further away. -/
theorem walk_of_accepts (accepts : ∀ n, Accepts o (contacts n target))
    (running : ∀ n, stopping n = false)
    (ahead : list[k + redirects s.attempts]? = some target) (before : i ≤ k + redirects s.attempts)
    (all : i + left = MAX_ATTEMPTS) :
    ∃ t, walk o contacts stopping left i list s = some t ∧
      (t.result = .connected ∧ t.session ≠ none ∨ MAX_ATTEMPTS ≤ k + redirects t.attempts) := by
  induction left generalizing i list s with
  | zero => exact ⟨s, rfl, .inr (by omega)⟩
  | succ left ih =>
    rcases Nat.lt_or_eq_of_le before with earlier | here
    · obtain ⟨address, next⟩ : ∃ address, list[i]? = some address := by
        obtain ⟨bound, -⟩ := List.getElem?_eq_some_iff.mp ahead
        exact ⟨_, List.getElem?_eq_getElem (Nat.lt_trans earlier bound)⟩
      obtain ⟨a, tried⟩ := attempt_isSome (accepts 0) (contacts i address)
      have count : redirects (s.note o address a).attempts =
          redirects s.attempts + a.isRedirect.toNat := by
        rw [attempts_note, redirects_concat]
      rw [walk_succ next (running i) tried]
      split
      · rename_i connected
        exact ⟨_, rfl, .inl (connected_note connected)⟩
      · refine ih ?_ (by omega) (by omega)
        rw [count, ← Nat.add_assoc, getElem?_redirect a earlier]
        exact ahead
    · rw [← here] at ahead
      obtain ⟨servers, tried⟩ := attempt_of_accepts (accepts i)
      refine ⟨s.note o target (.connected servers), ?_, .inl ⟨rfl, Option.some_ne_none _⟩⟩
      rw [walk_succ ahead (running i) tried]
      rfl

end Walk

/-- **`connect_once` ends after at most twenty attempts, and reaches a server that
accepts** when fewer than twenty are taken by the candidates ahead of it and by
redirects. -/
theorem reaches_available (o : Options) (contacts : Nat → Address → Contact)
    (stopping : Nat → Bool) {servers : List ServerAddress} (known : Known servers) :
    (∀ t, connectOnce o contacts stopping known = some t → t.attempts.length ≤ MAX_ATTEMPTS) ∧
      ∀ k target, (candidates o known)[k]? = some target →
        (∀ n, Accepts o (contacts n target)) → (∀ n, stopping n = false) →
          ∃ t, connectOnce o contacts stopping known = some t ∧
            (k + redirects t.attempts < MAX_ATTEMPTS →
              t.result = .connected ∧ t.session ≠ none) := by
  constructor
  · intro t ended
    have bound := length_walk ended
    rwa [Outcome.start, List.length_nil, Nat.zero_add] at bound
  · intro k target ahead accepts running
    obtain ⟨t, ended, result⟩ := walk_of_accepts (s := .start) accepts running ahead (Nat.zero_le _)
      (Nat.zero_add MAX_ATTEMPTS)
    refine ⟨t, ended, fun few => result.resolve_right ?_⟩
    exact Nat.not_le_of_gt few

/-! ## A server that redirects to itself -/

/-- The login of a user, with the address of a primary on the command line. -/
def options : Options := ⟨bytes "ana", bytes "password", bytes "primary", 4000⟩

/-- The primary accepts; the server known before takes itself for a backup of its own. -/
def circle : Nat → Address → Contact := fun _ address =>
  if address = (bytes "primary", 4000) then
    ⟨true, fun _ => some ⟨.loginOk, [0, 1, 0x74, 0, 0]⟩, true, fun _ => some ⟨.ok, []⟩⟩
  else ⟨true, fun _ => some ⟨.redirect, [0, 1, 0x62, 0x0F, 0xA0]⟩, false, fun _ => none⟩

def knownOne : Known [⟨999, bytes "b", 4000⟩] := ⟨_, List.Perm.refl _, List.pairwise_singleton _ _⟩

theorem accepts_circle (n : Nat) : Accepts options (circle n (bytes "primary", 4000)) :=
  ⟨rfl, rfl, _, [0x74], _, [], _, [], rfl, rfl, rfl, rfl, rfl⟩

/-- The redirects use up the attempts, and the primary on the command line is never
asked. -/
theorem primary_not_reached :
    (options.host, options.port) ∈ candidates options knownOne ∧
      (∀ n, Accepts options (circle n (options.host, options.port))) ∧
        ∃ t, connectOnce options circle (fun _ => false) knownOne = some t ∧
          t.result = .unreachable ∧ t.attempts.length = 20 ∧
            (options.host, options.port) ∉ t.attempts.map Prod.fst := by
  exact ⟨by decide, accepts_circle, _, rfl, by decide +kernel, by decide +kernel,
    by decide +kernel⟩

end SisOp.Connect
