import SisOp.Server.Requests
import SisOp.Lib.Run

/-!
# The table of sessions

`SessionManager` with the two threads that serve a session: `serve_client` on its
command connection and `serve_sync` on its sync connection. Each call of the table is
one step; a thread sees its connection close some steps before it makes its last call.

Main result: `sessions_end`.
-/

namespace SisOp.SessionTable

open Lib Function
open Requests (MAX_SESSIONS_PER_USER)

/-! ## The table -/

structure Session (κ : Type) where
  user : Bytes
  command : κ
  sync : Option κ

abbrev Table (κ : Type) := List (Bytes × Session κ)

section Table

variable {κ : Type} [DecidableEq κ]

def find (table : Table κ) (token : Bytes) : Option (Session κ) :=
  (table.find? fun entry => entry.1 = token).map Prod.snd

/-- The sessions of one user. -/
def ofUser (table : Table κ) (user : Bytes) : Table κ :=
  table.filter fun entry => entry.2.user = user

/-- `SessionManager::open` with the random token; empty when there is none. -/
def openSession (table : Table κ) (user : Bytes) (command : κ) (token : Bytes) : Option (Table κ) :=
  if (ofUser table user).length ≥ MAX_SESSIONS_PER_USER then none
  else if token.isEmpty || (find table token).isSome then none
  else some ((token, ⟨user, command, none⟩) :: table)

/-- `SessionManager::close`: the table, and the connections it shuts down. -/
def closeSession (table : Table κ) (token : Bytes) : Table κ × List κ :=
  match find table token with
  | none => (table, [])
  | some session =>
    (table.filter fun entry => entry.1 ≠ token, session.command :: session.sync.toList)

def setSync (table : Table κ) (token : Bytes) (sync : Option κ) : Table κ :=
  table.map fun entry => if entry.1 = token then (entry.1, { entry.2 with sync }) else entry

/-- `SessionManager::attach_sync`. -/
def attachSync (table : Table κ) (token : Bytes) (sync : κ) : Option (Table κ) :=
  match find table token with
  | none => none
  | some session => if session.sync.isSome then none else some (setSync table token (some sync))

/-- `SessionManager::detach_sync`. -/
def detachSync (table : Table κ) (token : Bytes) (sync : κ) : Table κ :=
  match find table token with
  | none => table
  | some session => if session.sync = some sync then setSync table token none else table

end Table

/-! ## The threads -/

/-- `serve_client` on one connection. -/
inductive CommandPhase where
  | idle
  | authenticated (user : Bytes)
  | serving (user token : Bytes)
  | leaving (token : Bytes)
  | closed (token : Bytes)
  | refused

/-- `serve_sync` on one connection; with the session it was attached to. -/
inductive SyncPhase (κ : Type) where
  | idle
  | serving (token : Bytes) (command : κ)
  | leaving (token : Bytes) (command : κ)
  | closed (token : Bytes) (command : κ)
  | refused

structure State (κ : Type) where
  table : Table κ
  command : κ → CommandPhase
  sync : κ → SyncPhase κ
  shut : List κ

/-- The command connection `i` logs in, gets its session, and is left: it closed, was
silent for too long, logged out, sent something malformed, or the server is no longer
the primary. The sync connection `j` is attached, closes, and is detached. -/
inductive Label (κ : Type) where
  | login (i : κ) (user : Bytes)
  | openSession (i : κ) (token : Bytes)
  | leave (i : κ)
  | closeSession (i : κ)
  | attach (j : κ) (token : Bytes) (primary : Bool)
  | hangup (j : κ)
  | detach (j : κ)

section Step

variable {κ : Type} [DecidableEq κ]

def step (s : State κ) : Label κ → Option (State κ)
  | .login i user =>
    match s.command i with
    | .idle => some { s with command := update s.command i (.authenticated user) }
    | _ => none
  | .openSession i token =>
    match s.command i with
    | .authenticated user =>
      match openSession s.table user i token with
      | some table =>
        some { s with table, command := update s.command i (.serving user token) }
      | none => some { s with command := update s.command i .refused }
    | _ => none
  | .leave i =>
    match s.command i with
    | .serving _ token => some { s with command := update s.command i (.leaving token) }
    | _ => none
  | .closeSession i =>
    match s.command i with
    | .leaving token =>
      let ended := closeSession s.table token
      some { s with table := ended.1, command := update s.command i (.closed token),
                    shut := s.shut ++ ended.2 }
    | _ => none
  | .attach j token primary =>
    match s.sync j with
    | .idle =>
      match find s.table token, attachSync s.table token j with
      | some session, some table =>
        if primary then
          some { s with table, sync := update s.sync j (.serving token session.command) }
        else some { s with sync := update s.sync j .refused }
      | _, _ => some { s with sync := update s.sync j .refused }
    | _ => none
  | .hangup j =>
    match s.sync j with
    | .serving token command => some { s with sync := update s.sync j (.leaving token command) }
    | _ => none
  | .detach j =>
    match s.sync j with
    | .leaving token command =>
      some { s with table := detachSync s.table token j,
                    sync := update s.sync j (.closed token command) }
    | _ => none

/-- The session with this token and command connection is in the table. -/
def Present (table : Table κ) (token : Bytes) (command : κ) : Prop :=
  ∃ session, (token, session) ∈ table ∧ session.command = command

/-- A sync connection closes only after its session has left the table. -/
def Safe (s : State κ) : Label κ → Prop
  | .hangup j => ∀ token command, s.sync j = .serving token command → ¬Present s.table token command
  | _ => True

end Step

/-! ## Table operations -/

section Operations

variable {κ : Type} {table table' : Table κ} {token t user : Bytes} {command i : κ}
  {sync : Option κ}

theorem mem_of_find {session : Session κ} (found : find table token = some session) :
    (token, session) ∈ table := by
  obtain ⟨entry, here, rfl⟩ := Option.map_eq_some_iff.mp found
  have same := List.find?_some here
  rw [decide_eq_true_eq] at same
  rw [← same]
  exact List.mem_of_find?_eq_some here

theorem not_present_of_find (missing : find table token = none) : ¬Present table token command := by
  rintro ⟨session, mem, -⟩
  have other := List.find?_eq_none.mp (Option.map_eq_none_iff.mp missing) _ mem
  exact other (decide_eq_true rfl)

/-- Changing the sync connection of a session changes nothing else. -/
theorem present_setSync : Present (setSync table token sync) t command ↔
    Present table t command := by
  constructor
  · rintro ⟨session, mem, rfl⟩
    obtain ⟨before, old, same⟩ := List.mem_map.mp mem
    split at same
    · cases same
      exact ⟨before.2, old, rfl⟩
    · rw [same] at old
      exact ⟨session, old, rfl⟩
  · rintro ⟨session, mem, rfl⟩
    have new := List.mem_map_of_mem
      (f := fun entry => if entry.1 = token then (entry.1, { entry.2 with sync }) else entry) mem
    dsimp only at new
    split at new
    · exact ⟨_, new, rfl⟩
    · exact ⟨session, new, rfl⟩

/-- Attaching and detaching keep the number of sessions. -/
theorem length_ofUser_setSync (table : Table κ) (token : Bytes) (sync : Option κ) (user : Bytes) :
    (ofUser (setSync table token sync) user).length = (ofUser table user).length := by
  rw [ofUser, ofUser, setSync, List.filter_map, List.length_map]
  congr 1
  refine List.filter_congr fun entry _ => ?_
  dsimp only [Function.comp]
  split <;> rfl

/-- `open` adds one session, to fewer than two of the user. -/
theorem openSession_spec (opened : openSession table user command token = some table') :
    table' = (token, ⟨user, command, none⟩) :: table ∧
      (ofUser table user).length < MAX_SESSIONS_PER_USER := by
  unfold openSession at opened
  split at opened
  · cases opened
  · rename_i few
    split at opened
    · cases opened
    · cases opened
      exact ⟨rfl, Nat.not_le.mp few⟩

/-- `attach_sync` sets the connection of the session. -/
theorem attachSync_spec (attached : attachSync table token i = some table') :
    table' = setSync table token (some i) := by
  unfold attachSync at attached
  split at attached
  · cases attached
  · split at attached
    · cases attached
    · cases attached
      rfl

/-- `close` removes the session of the token. -/
theorem present_closeSession :
    Present (closeSession table token).1 t command ↔ Present table t command ∧ t ≠ token := by
  unfold closeSession
  split
  · rename_i missing
    refine ⟨fun present => ⟨present, ?_⟩, And.left⟩
    rintro rfl
    exact not_present_of_find missing present
  · constructor
    · rintro ⟨session, mem, rfl⟩
      obtain ⟨old, other⟩ := List.mem_filter.mp mem
      exact ⟨⟨session, old, rfl⟩, of_decide_eq_true other⟩
    · rintro ⟨⟨session, mem, rfl⟩, other⟩
      exact ⟨session, List.mem_filter.mpr ⟨mem, decide_eq_true other⟩, rfl⟩

/-- `close` makes no sessions. -/
theorem length_ofUser_closeSession (table : Table κ) (token user : Bytes) :
    (ofUser (closeSession table token).1 user).length ≤ (ofUser table user).length := by
  unfold closeSession
  split
  · exact Nat.le_refl _
  · rw [ofUser, ofUser]
    exact (List.Sublist.filter _ List.filter_sublist).length_le

/-- `detach_sync` changes nothing, or takes the connection from the session. -/
theorem detachSync_spec [DecidableEq κ] (table : Table κ) (token : Bytes) (i : κ) :
    detachSync table token i = table ∨ detachSync table token i = setSync table token none := by
  unfold detachSync
  split
  · exact .inl rfl
  · split
    · exact .inr rfl
    · exact .inl rfl

end Operations

/-! ## Runs -/

section Runs

variable {κ : Type} [DecidableEq κ] {s₀ s s' : State κ} {labels : List (Label κ)}

/-- The command connection has opened the session with this token. -/
def Opened (token : Bytes) : CommandPhase → Prop
  | .serving _ t | .leaving t | .closed t => t = token
  | _ => False

/-- The session a sync connection was attached to. -/
def Attached (token : Bytes) (command : κ) : SyncPhase κ → Prop
  | .serving t c | .leaving t c | .closed t c => t = token ∧ c = command
  | _ => False

structure Inv (s : State κ) : Prop where
  bound : ∀ user, (ofUser s.table user).length ≤ MAX_SESSIONS_PER_USER
  owner : ∀ t c, Present s.table t c → Opened t (s.command c) ∧ s.command c ≠ .closed t
  attached : ∀ j t c, Attached t c (s.sync j) → Opened t (s.command c)
  gone : ∀ j t c, (s.sync j = .leaving t c ∨ s.sync j = .closed t c) → ¬Present s.table t c

/-- A step of a command connection that leaves the table. -/
theorem Inv.setCommand (inv : Inv s) {i : κ} {phase : CommandPhase}
    (kept : ∀ t, Opened t (s.command i) → Opened t phase ∧ phase ≠ .closed t) :
    Inv { s with command := update s.command i phase } := by
  refine ⟨inv.bound, fun t c present => ?_, fun j t c attached => ?_, inv.gone⟩
  · by_cases same : c = i
    · subst c
      dsimp only
      rw [update_self]
      exact kept t (inv.owner t i present).1
    · dsimp only
      rw [update_of_ne same]
      exact inv.owner t c present
  · have opened := inv.attached j t c attached
    by_cases same : c = i
    · subst c
      dsimp only
      rw [update_self]
      exact (kept t opened).1
    · dsimp only
      rw [update_of_ne same]
      exact opened

/-- A step of a sync connection. -/
theorem Inv.setSync (inv : Inv s) {j : κ} {phase : SyncPhase κ} {table : Table κ}
    (same : ∀ t c, Present table t c ↔ Present s.table t c)
    (length : ∀ user, (ofUser table user).length = (ofUser s.table user).length)
    (attached : ∀ t c, Attached t c phase → Opened t (s.command c))
    (gone : ∀ t c, (phase = .leaving t c ∨ phase = .closed t c) → ¬Present s.table t c) :
    Inv { s with table, sync := update s.sync j phase } := by
  refine ⟨fun user => (length user).trans_le (inv.bound user),
    fun t c present => inv.owner t c ((same t c).mp present), fun k t c at_ => ?_,
    fun k t c at_ present => ?_⟩
  · by_cases here : k = j
    · subst k
      dsimp only at at_
      rw [update_self] at at_
      exact attached t c at_
    · dsimp only at at_
      rw [update_of_ne here] at at_
      exact inv.attached k t c at_
  · have old := (same t c).mp present
    by_cases here : k = j
    · subst k
      dsimp only at at_
      rw [update_self] at at_
      exact gone t c at_ old
    · dsimp only at at_
      rw [update_of_ne here] at at_
      exact inv.gone k t c at_ old

/-- Opening keeps the invariant. -/
theorem Inv.openSession (inv : Inv s) {i : κ} {user token : Bytes} {table : Table κ}
    (here : s.command i = .authenticated user)
    (opened : openSession s.table user i token = some table) :
    Inv { s with table, command := update s.command i (.serving user token) } := by
  obtain ⟨rfl, few⟩ := openSession_spec opened
  have nothing : ∀ t, ¬Opened t (s.command i) := by
    intro t
    rw [here]
    exact id
  have cases_ : ∀ t c, Present ((token, ⟨user, i, none⟩) :: s.table) t c →
      t = token ∧ c = i ∨ c ≠ i ∧ Present s.table t c := by
    rintro t c ⟨session, mem, rfl⟩
    rcases List.mem_cons.mp mem with new | old
    · cases new
      exact .inl ⟨rfl, rfl⟩
    · have present : Present s.table t session.command := ⟨session, old, rfl⟩
      refine .inr ⟨?_, present⟩
      intro same
      exact nothing t (same ▸ (inv.owner t _ present).1)
  refine ⟨fun u => ?_, fun t c present => ?_, fun j t c attached => ?_,
    fun j t c finished present => ?_⟩
  · have before := inv.bound u
    dsimp only
    rw [ofUser, List.filter_cons]
    dsimp only
    split
    · rename_i same
      obtain rfl := of_decide_eq_true same
      rw [← ofUser, List.length_cons]
      exact few
    · exact before
  · rcases cases_ t c present with ⟨rfl, rfl⟩ | ⟨other, old⟩
    · dsimp only
      rw [update_self]
      exact ⟨rfl, nofun⟩
    · dsimp only
      rw [update_of_ne other]
      exact inv.owner t c old
  · have before := inv.attached j t c attached
    dsimp only
    rw [update_of_ne]
    · exact before
    · rintro rfl
      exact nothing t before
  · rcases cases_ t c present with ⟨rfl, rfl⟩ | ⟨other, old⟩
    · have attached : Attached t c (s.sync j) := by
        rcases finished with at_ | at_
        · rw [at_]
          exact ⟨rfl, rfl⟩
        · rw [at_]
          exact ⟨rfl, rfl⟩
      exact nothing t (inv.attached j t c attached)
    · exact inv.gone j t c finished old

/-- Closing keeps the invariant. -/
theorem Inv.closeSession (inv : Inv s) {i : κ} {token : Bytes} (here : s.command i = .leaving token)
    (shut : List κ) :
    Inv { s with table := (closeSession s.table token).1,
                 command := update s.command i (.closed token), shut } := by
  refine ⟨fun u => Nat.le_trans (length_ofUser_closeSession s.table token u) (inv.bound u),
    fun t c present => ?_, fun j t c attached => ?_, fun j t c finished present => ?_⟩
  · obtain ⟨old, other⟩ := present_closeSession.mp present
    have before := inv.owner t c old
    dsimp only
    rw [update_of_ne]
    · exact before
    · rintro rfl
      rw [here] at before
      exact other before.1.symm
  · have before := inv.attached j t c attached
    by_cases same : c = i
    · subst c
      dsimp only
      rw [update_self]
      rw [here] at before
      exact before
    · dsimp only
      rw [update_of_ne same]
      exact before
  · exact inv.gone j t c finished (present_closeSession.mp present).1

/-- Every step keeps the invariant. -/
theorem Inv.step (inv : Inv s) {label : Label κ} (safe : Safe s label)
    (stepped : step s label = some s') : Inv s' := by
  cases label with
  | login i user =>
    simp only [SessionTable.step] at stepped
    split at stepped <;> cases stepped
    rename_i here
    refine inv.setCommand fun t opened => ?_
    rw [here] at opened
    exact opened.elim
  | openSession i token =>
    simp only [SessionTable.step] at stepped
    split at stepped
    · rename_i user here
      split at stepped
      · rename_i table opened
        cases stepped
        exact inv.openSession here opened
      · cases stepped
        refine inv.setCommand fun t opened => ?_
        rw [here] at opened
        exact opened.elim
    · cases stepped
  | leave i =>
    simp only [SessionTable.step] at stepped
    split at stepped <;> cases stepped
    rename_i here
    refine inv.setCommand fun t opened => ?_
    rw [here] at opened
    exact ⟨opened, nofun⟩
  | closeSession i =>
    simp only [SessionTable.step] at stepped
    split at stepped <;> cases stepped
    rename_i here
    exact inv.closeSession here _
  | attach j token primary =>
    simp only [SessionTable.step] at stepped
    have refused : Inv { s with sync := update s.sync j .refused } :=
      inv.setSync (fun _ _ => Iff.rfl) (fun _ => rfl) (fun _ _ attached => attached.elim)
        fun _ _ finished => by rcases finished with at_ | at_ <;> cases at_
    split at stepped
    · split at stepped
      · rename_i session table found attached
        obtain rfl := attachSync_spec attached
        split at stepped
        · cases stepped
          refine inv.setSync (fun _ _ => present_setSync) (length_ofUser_setSync _ _ _) ?_ ?_
          · rintro t c ⟨rfl, rfl⟩
            exact (inv.owner _ _ ⟨session, mem_of_find found, rfl⟩).1
          · intro t c finished
            rcases finished with at_ | at_ <;> cases at_
        · cases stepped
          exact refused
      · cases stepped
        exact refused
    · cases stepped
  | hangup j =>
    simp only [SessionTable.step] at stepped
    split at stepped <;> cases stepped
    rename_i token command here
    refine inv.setSync (fun _ _ => Iff.rfl) (fun _ => rfl) ?_ ?_
    · rintro t c ⟨rfl, rfl⟩
      exact inv.attached j _ _ (by rw [here]; exact ⟨rfl, rfl⟩)
    · intro t c finished
      rcases finished with at_ | at_
      · cases at_
        exact safe token command here
      · cases at_
  | detach j =>
    simp only [SessionTable.step] at stepped
    split at stepped <;> cases stepped
    rename_i token command here
    have attached : ∀ t c, Attached t c (.closed token command) → Opened t (s.command c) := by
      rintro t c ⟨rfl, rfl⟩
      exact inv.attached j _ _ (by rw [here]; exact ⟨rfl, rfl⟩)
    have gone : ∀ t c, (SyncPhase.closed token command = .leaving t c ∨
        SyncPhase.closed token command = .closed t c) → ¬Present s.table t c := by
      intro t c finished
      rcases finished with at_ | at_
      · cases at_
      · cases at_
        exact inv.gone j token command (.inl here)
    rcases detachSync_spec s.table token j with same | set
    · rw [same]
      exact inv.setSync (fun _ _ => Iff.rfl) (fun _ => rfl) attached gone
    · rw [set]
      exact inv.setSync (fun _ _ => present_setSync) (length_ofUser_setSync _ _ _) attached gone

/-- Before the first connection. -/
def initial (κ : Type) : State κ where
  table := []
  command _ := .idle
  sync _ := .idle
  shut := []

/-- **A session ends with its connections**, as long as a sync connection only closes
after its session has ended: in every such run a user has at most
`MAX_SESSIONS_PER_USER` sessions, and the session of a command or sync connection
whose end was handled is not in the table. -/
theorem sessions_end (safe : Meets step Safe (initial κ) labels)
    (ran : run step (initial κ) labels = some s) :
    (∀ user, (ofUser s.table user).length ≤ MAX_SESSIONS_PER_USER) ∧
    (∀ i token, s.command i = .closed token → ¬Present s.table token i) ∧
    ∀ j token command, s.sync j = .closed token command → ¬Present s.table token command := by
  have init : Inv (initial κ) := by
    refine ⟨fun user => Nat.zero_le _, fun t c present => ?_, fun j t c attached => attached.elim,
      fun j t c finished => ?_⟩
    · obtain ⟨session, mem, -⟩ := present
      exact absurd mem List.not_mem_nil
    · rcases finished with at_ | at_ <;> cases at_
  have inv := run_invariant (fun s a s' inv ok stepped => Inv.step inv ok stepped) init safe ran
  refine ⟨inv.bound, fun i token finished present => ?_, fun j token command finished =>
    inv.gone j token command (.inr finished)⟩
  exact (inv.owner token i present).2 finished

end Runs

/-! ## A sync connection that closes first -/

/-- A session is opened and gets its sync connection, which closes. -/
def syncLost : List (Label Bool) :=
  [.login true (bytes "bob"), .openSession true (bytes "7f"), .attach false (bytes "7f") true,
    .hangup false, .detach false]

theorem session_left : ¬∀ (s : State Bool) (labels : List (Label Bool)),
    run step (initial Bool) labels = some s →
      ∀ j token command, s.sync j = .closed token command → ¬Present s.table token command := by
  intro always
  have ends : ∃ s, run step (initial Bool) syncLost = some s ∧
      s.sync false = .closed (bytes "7f") true ∧
      s.table = [(bytes "7f", ⟨bytes "bob", true, none⟩)] := ⟨_, rfl, rfl, rfl⟩
  obtain ⟨s, ran, finished, table⟩ := ends
  refine always s syncLost ran false (bytes "7f") true finished ?_
  rw [table]
  exact ⟨_, List.mem_cons_self, rfl⟩

/-- The session ends with its command connection, and its sync connection with it. -/
def ended : List (Label Bool) :=
  [.login true (bytes "bob"), .openSession true (bytes "7f"), .attach false (bytes "7f") true,
    .leave true, .closeSession true, .hangup false, .detach false]

theorem sessions_end_ended : ∃ s, run step (initial Bool) ended = some s ∧ s.shut = [true, false] ∧
    ∀ j token command, s.sync j = .closed token command → ¬Present s.table token command := by
  have safe : Meets step Safe (initial Bool) ended := by
    refine ⟨trivial, trivial, trivial, trivial, trivial, ?_, trivial, trivial⟩
    rintro token command - ⟨session, mem, -⟩
    exact absurd mem List.not_mem_nil
  exact ⟨_, rfl, rfl, (sessions_end safe rfl).2.2⟩

end SisOp.SessionTable
