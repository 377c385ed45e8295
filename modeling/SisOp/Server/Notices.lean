import SisOp.Server.Health
import SisOp.Server.SessionTable
import SisOp.Server.SyncStream
import SisOp.Lib.Feed

/-!
# What the clients hear of the expected servers

The rounds of `HealthMonitor` on their thread, `push_notice` for each change they find,
and `serve_sync` on the thread of each sync connection `κ`, which tells a client of the
problems there are while it holds the send lock. The states are noted one server at a
time, and the changes are sent after the last one.

Main result: `heard_current`, between two rounds every client served has heard last of
each expected server what is kept of it.
-/

namespace SisOp.Notices

open Lib Lib.Feed Std
open Health (Endpoint Monitor Round Report Finding)
open SessionTable (Table)

/-! ## The texts -/

def blank : UInt8 := 0x20

/-- What `check` says of a server that is up again. -/
def back (server : Endpoint) : Bytes :=
  bytes "expected server " ++ (server.key ++ bytes " is back in the cluster")

/-- Every notice about a server begins in one of two ways. -/
def about (server : Endpoint) (text : Bytes) : Bool :=
  (bytes "expected server " ++ (server.key ++ [blank])).isPrefixOf text ||
    (bytes "warning: " ++ (bytes "expected server " ++ (server.key ++ [blank]))).isPrefixOf text

/-- The name of the host has no blank and no line end in it. -/
def Plain (server : Endpoint) : Prop := blank ∉ server.host ∧ newline ∉ server.host

abbrev Host := {server : Endpoint // Plain server}

abbrev topics : Topics Host Bytes where
  about host := about host.1
  gone host := back host.1

/-- What a client reads from the notices. -/
def told (messages : List Message) : List Bytes :=
  messages.filterMap fun m =>
    if m.type = .notice then (Reader.str.run m.payload).map Prod.fst else none

section Texts

variable {server : Endpoint} {finding : Finding} {text : Bytes}

theorem about_iff : about server text = true ↔
    ∃ rest, text = bytes "expected server " ++ (server.key ++ blank :: rest) ∨
      text = bytes "warning: " ++ (bytes "expected server " ++ (server.key ++ blank :: rest)) := by
  rw [about, Bool.or_eq_true, List.isPrefixOf_iff_prefix, List.isPrefixOf_iff_prefix,
    exists_or]
  refine or_congr ⟨?_, ?_⟩ ⟨?_, ?_⟩
  · rintro ⟨rest, rfl⟩
    exact ⟨rest, by simp only [List.append_assoc, List.cons_append, List.nil_append]⟩
  · rintro ⟨rest, rfl⟩
    exact ⟨rest, by simp only [List.append_assoc, List.cons_append, List.nil_append]⟩
  · rintro ⟨rest, rfl⟩
    exact ⟨rest, by simp only [List.append_assoc, List.cons_append, List.nil_append]⟩
  · rintro ⟨rest, rfl⟩
    exact ⟨rest, by simp only [List.append_assoc, List.cons_append, List.nil_append]⟩

/-- Texts that begin with different letters differ. -/
theorem append_ne {a b : Bytes} {c d : UInt8} (first : a.head? = some c) (second : b.head? = some d)
    (differ : c ≠ d) (rest rest' : Bytes) : a ++ rest ≠ b ++ rest' := by
  intro same
  have heads := congrArg List.head? same
  rw [List.head?_append, List.head?_append, first, second] at heads
  exact differ (Option.some.inj heads)

theorem about_back (server : Endpoint) : about server (back server) = true :=
  about_iff.mpr ⟨bytes "is back in the cluster", .inl rfl⟩

theorem detail_spec (server : Endpoint) (wrong : finding ≠ .up) :
    ∃ rest, finding.detail server = bytes "expected server " ++ (server.key ++ blank :: rest) := by
  cases finding with
  | up => exact absurd rfl wrong
  | notRunning => exact ⟨bytes "is not running (or can't be reached)", rfl⟩
  | malformed => exact ⟨bytes "sent a malformed status reply", rfl⟩
  | separate =>
    exact ⟨bytes
      "is running as a separate primary (a network split, or it was started without --join)", rfl⟩
  | follows primary =>
    exact ⟨bytes "follows a different primary (" ++
      (primary.key ++ bytes "): the cluster is split"), rfl⟩

theorem about_warning (wrong : finding ≠ .up) :
    about server (Health.warning server finding) = true := by
  obtain ⟨rest, named⟩ := detail_spec server wrong
  exact about_iff.mpr ⟨rest, .inr (congrArg _ named)⟩

/-- The last line of a round speaks of no server. -/
theorem about_all (text : Bytes) : about server (bytes "all " ++ text) = false := by
  refine Bool.eq_false_iff.mpr fun speaks => ?_
  obtain ⟨rest, same | same⟩ := about_iff.mp speaks
  · exact append_ne rfl rfl (by decide) _ _ same
  · exact append_ne rfl rfl (by decide) _ _ same

theorem plain_key (plain : Plain server) : blank ∉ server.key ∧ newline ∉ server.key := by
  have digits : ∀ d < 10, decimalChar d ≠ blank ∧ decimalChar d ≠ newline := by decide
  constructor
  · intro mem
    rcases List.mem_append.mp mem with inHost | inPort
    · exact plain.1 inHost
    · rcases List.mem_cons.mp inPort with colon | inPort
      · exact absurd colon (by decide)
      · obtain ⟨d, small, same⟩ := digit_of_mem_unsignedText inPort
        exact (digits d small).1 same
  · intro mem
    rcases List.mem_append.mp mem with inHost | inPort
    · exact plain.2 inHost
    · rcases List.mem_cons.mp inPort with colon | inPort
      · exact absurd colon (by decide)
      · obtain ⟨d, small, same⟩ := digit_of_mem_unsignedText inPort
        exact (digits d small).2 same

/-- A name is all there is up to the first blank. -/
theorem eq_of_blank {a b rest rest' : Bytes} (left : blank ∉ a) (right : blank ∉ b)
    (same : a ++ blank :: rest = b ++ blank :: rest') : a = b := by
  induction a generalizing b with
  | nil =>
    cases b with
    | nil => rfl
    | cons c b =>
      obtain ⟨rfl, -⟩ := List.cons.inj same
      exact absurd List.mem_cons_self right
  | cons c a ih =>
    cases b with
    | nil =>
      obtain ⟨rfl, -⟩ := List.cons.inj same
      exact absurd List.mem_cons_self left
    | cons d b =>
      obtain ⟨rfl, tails⟩ := List.cons.inj same
      rw [ih (fun mem => left (List.mem_cons_of_mem _ mem))
        (fun mem => right (List.mem_cons_of_mem _ mem)) tails]

theorem apart : topics.Apart := by
  rintro ⟨a, plainA⟩ ⟨b, plainB⟩ text speaksA speaksB
  have keys : ∀ {rest rest' : Bytes}, a.key ++ blank :: rest = b.key ++ blank :: rest' →
      (⟨a, plainA⟩ : Host) = ⟨b, plainB⟩ := by
    intro rest rest' same
    have named := eq_of_blank (plain_key plainA).1 (plain_key plainB).1 same
    exact Subtype.ext (Health.Endpoint.key_inj.mp named)
  obtain ⟨rest, left⟩ := about_iff.mp speaksA
  obtain ⟨rest', right⟩ := about_iff.mp speaksB
  rcases left with rfl | rfl
  · rcases right with same | same
    · exact keys (List.append_cancel_left same)
    · exact absurd same (append_ne rfl rfl (by decide) _ _)
  · rcases right with same | same
    · exact absurd same (append_ne rfl rfl (by decide) _ _)
    · exact keys (List.append_cancel_left (List.append_cancel_left same))

theorem told_concat_of_ne {messages : List Message} {m : Message} (other : m.type ≠ .notice) :
    told (messages ++ [m]) = told messages := by
  rw [told, List.filterMap_append, List.filterMap_cons, if_neg other]
  exact List.append_nil _

theorem told_concat {messages : List Message} {payload : Bytes}
    (written : Writer.str text = some payload) :
    told (messages ++ [⟨.notice, payload⟩]) = told messages ++ [text] := by
  have read : Reader.str.run payload = some (text, []) := by
    have parsed := parses_str written []
    rwa [List.append_nil] at parsed
  rw [told, List.filterMap_append, List.filterMap_cons, if_pos rfl, read]
  rfl

end Texts

/-! ## The threads -/

/-- `serve_sync` on one connection. -/
inductive Phase where
  | idle
  | locked (token : Bytes)
  | primary (token : Bytes)
  | attached (token : Bytes)
  | greeted (token : Bytes)
  | telling (token : Bytes) (lines : List Bytes)
  | refused
  | serving (token : Bytes)
  | leaving (token : Bytes)
  | ended

/-- It has the send lock. -/
def Phase.holds : Phase → Bool
  | locked _ | primary _ | attached _ | greeted _ | telling .. | refused => true
  | idle | serving _ | leaving _ | ended => false

/-- The thread of the rounds: the servers and what was found so far, the changes still
to be sent, and the connections the first of them still goes to. -/
inductive Stage (κ : Type) where
  | resting
  | checking (round : Round) (left : List Endpoint) (reports : List Report)
  | notifying (pending : List Bytes)
  | sending (text : Bytes) (left : List κ) (pending : List Bytes)

/-- `lost` records that a send on the connection failed. -/
structure State (κ : Type) where
  primary : Bool
  monitor : Monitor
  stage : Stage κ
  table : Table κ
  sync : κ → Phase
  heard : κ → List Message
  lost : κ → Bool

def init (κ : Type) (primary : Bool) : State κ :=
  ⟨primary, .init, .resting, [], fun _ => .idle, fun _ => [], fun _ => false⟩

/-- A round begins, looks at one server, and takes up the next change or sends it to the
next connection; the server becomes the primary or no longer is; a session opens or
closes; a connection has sent SyncAttach, moves on in `serve_sync`, or closes; another
thread pushes something else. -/
inductive Action (κ : Type) where
  | round (round : Round)
  | look
  | notify
  | deliver (sent : Bool)
  | elect (primary : Bool)
  | openSession (user token : Bytes) (command : κ)
  | closeSession (token : Bytes)
  | accept (j : κ) (token : Bytes)
  | serve (j : κ) (sent : Bool)
  | hangup (j : κ)
  | push (j : κ) (m : Message) (sent : Bool)

/-- `SessionManager::all_sync_connections`, in the order of the tokens. -/
def allSyncConnections {κ : Type} (table : Table κ) : List κ :=
  (table.mergeSort fun a b => decide (a.1 ≤ b.1)).filterMap fun entry => entry.2.sync

/-- The loop of `check` for one server. -/
def look (me : Endpoint) (round : Round) (m : Monitor) (server : Endpoint) :
    Monitor × Option Report :=
  let mine := Health.same round.lookUp m.resolved server me
  if mine.1 then ({ m with resolved := mine.2 }, none)
  else
    let found := Health.examine round mine.2 server
    let noted := Health.note { m with resolved := found.2 } server found.1
    (noted.1, some ⟨server, found.1, noted.2⟩)

theorem checkAll_cons (me : Endpoint) (round : Round) (server : Endpoint)
    (expected : List Endpoint) (m : Monitor) :
    Health.checkAll me round (server :: expected) m =
      ((Health.checkAll me round expected (look me round m server).1).1,
        (look me round m server).2.toList ++
          (Health.checkAll me round expected (look me round m server).1).2) := by
  rw [Health.checkAll, look]
  dsimp only
  split <;> rfl

section Step

variable {κ : Type} [DecidableEq κ] (me : Endpoint) (expected : List Endpoint)

namespace State

def enter (s : State κ) (j : κ) (phase : Phase) : State κ :=
  { s with sync := Function.update s.sync j phase }

/-- `Connection::send`, of which nobody looks at the result. -/
def send (s : State κ) (j : κ) (m : Message) (sent : Bool) : State κ :=
  if sent then { s with heard := Function.update s.heard j (s.heard j ++ [m]) }
  else { s with lost := Function.update s.lost j true }

end State

def step (s : State κ) : Action κ → Option (State κ)
  | .round round =>
    match s.stage with
    | .resting => some { s with stage := .checking round expected [] }
    | _ => none
  | .look =>
    match s.stage with
    | .checking round (server :: left) reports =>
      let one := look me round s.monitor server
      some { s with monitor := one.1, stage := .checking round left (reports ++ one.2.toList) }
    | .checking _ [] reports =>
      some { s with stage := .notifying (Health.notices expected reports) }
    | _ => none
  | .notify =>
    match s.stage with
    | .notifying (text :: pending) =>
      if s.primary then
        -- an exception here ends the process
        if (Writer.str text).isSome then
          some { s with stage := .sending text (allSyncConnections s.table) pending }
        else none
      else some { s with stage := .notifying pending }
    | .notifying [] => some { s with stage := .resting }
    | _ => none
  | .deliver sent =>
    match s.stage with
    | .sending text (j :: left) pending =>
      match Writer.str text with
      | some payload =>
        if (s.sync j).holds then none
        else some { s.send j ⟨.notice, payload⟩ sent with stage := .sending text left pending }
      | none => none
    | .sending _ [] pending => some { s with stage := .notifying pending }
    | _ => none
  | .elect primary => some { s with primary }
  | .openSession user token command =>
    match SessionTable.openSession s.table user command token with
    | some table => some { s with table }
    | none => none
  | .closeSession token => some { s with table := (SessionTable.closeSession s.table token).1 }
  | .accept j token =>
    match s.sync j with
    | .idle => some (s.enter j (.locked token))
    | _ => none
  | .serve j sent =>
    match s.sync j with
    | .locked token => some (s.enter j (if s.primary then .primary token else .refused))
    | .primary token =>
      match SessionTable.attachSync s.table token j with
      | some table => some ({ s with table }.enter j (.attached token))
      | none => some (s.enter j .refused)
    | .attached token => some ((s.send j ⟨.ok, []⟩ sent).enter j (.greeted token))
    | .greeted token =>
      some (s.enter j (.telling token (SyncStream.lines [] (Health.problems s.monitor))))
    | .telling token (line :: lines) =>
      match Writer.str line with
      | some payload => some ((s.send j ⟨.notice, payload⟩ sent).enter j (.telling token lines))
      -- the exception leaves `serve_sync`, and the connection stays attached
      | none => some (s.enter j .ended)
    | .telling token [] => some (s.enter j (.serving token))
    | .refused =>
      let reason := (Writer.str (bytes "unknown session")).getD []
      some ((s.send j ⟨.error, reason⟩ sent).enter j .ended)
    | .leaving token =>
      some ({ s with table := SessionTable.detachSync s.table token j }.enter j .ended)
    | _ => none
  | .hangup j =>
    match s.sync j with
    | .serving token => some (s.enter j (.leaving token))
    | _ => none
  | .push j m sent =>
    match s.sync j with
    | .serving _ | .leaving _ | .ended => if m.type = .notice then none else some (s.send j m sent)
    | _ => none

theorem run_looks (round : Round) (left : List Endpoint) {s : State κ} {reports : List Report}
    (checking : s.stage = .checking round left reports) :
    Lib.run (step me expected) s (List.replicate left.length .look) = some { s with
      monitor := (Health.checkAll me round left s.monitor).1
      stage := .checking round [] (reports ++ (Health.checkAll me round left s.monitor).2) } := by
  induction left generalizing s reports with
  | nil =>
    rw [Health.checkAll, List.append_nil, ← checking]
    rfl
  | cons server left ih =>
    have looked : step me expected s .look = some { s with
        monitor := (look me round s.monitor server).1
        stage := .checking round left (reports ++ (look me round s.monitor server).2.toList) } := by
      rw [step, checking]
    rw [List.length_cons, List.replicate_succ, Lib.run, looked, Option.bind_some, ih rfl,
      checkAll_cons, List.append_assoc]

/-- **A round taken in a row is a round of `check`.** -/
theorem run_round (round : Round) {s : State κ} (resting : s.stage = .resting) :
    Lib.run (step me expected) s
        (.round round :: List.replicate expected.length .look ++ [.look]) =
      some { s with
        monitor := (Health.checkAll me round expected s.monitor).1
        stage := .notifying
          (Health.notices expected (Health.checkAll me round expected s.monitor).2) } := by
  have begun : step me expected s (.round round) =
      some { s with stage := .checking round expected [] } := by
    rw [step, resting]
  rw [List.cons_append, Lib.run, begun, Option.bind_some, Lib.run_append,
    run_looks me expected round expected rfl]
  rfl

/-- A change waits to be sent. -/
def Stage.waits : Stage κ → Bool
  | .notifying (_ :: _) => true
  | _ => false

/-- No client is attached when a server that is not the primary leaves out a notice. -/
def Orderly (s : State κ) : Action κ → Prop
  | .notify => s.stage.waits = true → s.primary = true ∨ allSyncConnections s.table = []
  | _ => True

instance (s : State κ) : DecidablePred (Orderly s)
  | .notify => inferInstanceAs (Decidable (_ → _))
  | .round _ | .look | .deliver _ | .elect _ | .openSession .. | .closeSession _ | .accept ..
  | .serve .. | .hangup _ | .push .. => isTrue trivial

/-- The hosts that servers name as their primaries have no line end in their names. -/
def RoundPlain (round : Round) : Prop :=
  ∀ server reply, round.reply server = some reply → ∀ role known theirs rest,
    Health.readStatus.run reply.payload = some ((role, known, theirs), rest) →
      newline ∉ theirs.host

end Step

/-! ## What is noted of one server -/

/-- The messages by the host they are about. -/
def current (m : Monitor) (host : Host) : Option Bytes := m.messages[host.1.key]?

/-- A host named in the text has no line end in its name. -/
def FindingPlain (finding : Finding) : Prop :=
  ∀ primary, finding = .follows primary → newline ∉ primary.host

/-- Nothing is kept of a server not looked at, and what is kept are warnings. -/
structure Sane (m : Monitor) : Prop where
  unknown : ∀ server : Endpoint, m.states[server.key]?.getD .unknown = .unknown →
    m.messages[server.key]? = none
  texts : ∀ key text : Bytes, m.messages[key]? = some text → ∃ server finding, Plain server ∧
    finding ≠ .up ∧ FindingPlain finding ∧ key = server.key ∧
      text = Health.warning server finding

section Note

variable {m : Monitor} {server : Endpoint} {finding : Finding} {resolved : ExtTreeMap Bytes Bytes}

theorem sane_init : Sane .init where
  unknown _ _ := ExtTreeMap.getElem?_empty
  texts key text present := by
    have absent : (∅ : ExtTreeMap Bytes Bytes)[key]? = none := ExtTreeMap.getElem?_empty
    cases absent.symm.trans present

theorem Sane.cache (sane : Sane m) : Sane { m with resolved } := ⟨sane.unknown, sane.texts⟩

theorem Sane.note (sane : Sane m) (plain : Plain server) (named : FindingPlain finding) :
    Sane (Health.note m server finding).1 where
  unknown := by
    intro other unknown
    rw [Health.note_states] at unknown
    rw [Health.note_messages]
    by_cases same : other.key = server.key
    · rw [if_pos same] at unknown
      exact absurd unknown finding.state_ne_unknown
    · rw [if_neg same] at unknown
      rw [if_neg same]
      exact sane.unknown other unknown
  texts := by
    intro key text present
    rw [Health.note_messages] at present
    by_cases same : key = server.key
    · rw [if_pos same, Health.message] at present
      split at present
      · exact sane.texts key text (same ▸ present)
      · obtain ⟨wrong, rfl⟩ := Health.due_eq_some.mp present
        exact ⟨server, finding, plain, wrong, named, same, rfl⟩
    · rw [if_neg same] at present
      exact sane.texts key text present

/-- What a change says is what becomes of the messages. -/
theorem note_spec (sane : Sane m) (plain : Plain server) (finding : Finding) :
    (Health.note m server finding).2 = none ∧
        current (Health.note m server finding).1 = current m ∨
      (Health.note m server finding).2 = some (back server) ∧
        current (Health.note m server finding).1 =
          Function.update (current m) ⟨server, plain⟩ none ∨
      finding ≠ .up ∧ (Health.note m server finding).2 = some (Health.warning server finding) ∧
        current (Health.note m server finding).1 =
          Function.update (current m) ⟨server, plain⟩ (some (Health.warning server finding)) := by
  have value : ∀ text, Health.message m.states[server.key]? m.messages[server.key]? server finding =
      text → current (Health.note m server finding).1 =
        Function.update (current m) ⟨server, plain⟩ text := by
    rintro text rfl
    funext host
    rw [current, Health.note_messages, Function.update_apply]
    by_cases same : host = ⟨server, plain⟩
    · rw [if_pos same, same, if_pos rfl]
    · rw [if_neg same, if_neg fun keys => same (Subtype.ext (Health.Endpoint.key_inj.mp keys))]
      rfl
  have unchanged : current m =
      Function.update (current m) ⟨server, plain⟩ m.messages[server.key]? :=
    (Function.update_eq_self _ _).symm
  rw [Health.note_change, Health.change]
  by_cases same : finding.state = m.states[server.key]?.getD .unknown
  · rw [if_pos same]
    refine .inl ⟨rfl, (value _ ?_).trans unchanged.symm⟩
    rw [Health.message, if_pos same]
  · rw [if_neg same]
    by_cases up : finding.state = .up
    · have gone : Health.message m.states[server.key]? m.messages[server.key]? server finding =
          none := by
        rw [Health.message, if_neg same, Health.due, if_pos (Health.Finding.state_eq_up.mp up)]
      rw [if_pos up]
      by_cases first : m.states[server.key]?.getD .unknown = .unknown
      · rw [if_pos first]
        refine .inl ⟨rfl, (value _ gone).trans ?_⟩
        rw [← sane.unknown server first]
        exact unchanged.symm
      · rw [if_neg first]
        exact .inr (.inl ⟨rfl, value _ gone⟩)
    · have wrong : finding ≠ .up := mt Health.Finding.state_eq_up.mpr up
      rw [if_neg up]
      refine .inr (.inr ⟨wrong, rfl, value _ ?_⟩)
      rw [Health.message, if_neg same, Health.due, if_neg wrong]

theorem plain_examine {round : Round} (plain : RoundPlain round)
    (resolved : ExtTreeMap Bytes Bytes) (server : Endpoint) :
    FindingPlain (Health.examine round resolved server).1 := by
  intro primary found
  unfold Health.examine at found
  dsimp only at found
  split at found
  · cases found
  · unfold Health.probe at found
    split at found
    · cases found
    · rename_i reply replied
      split at found
      · cases found
      · split at found
        · cases found
        · rename_i role known theirs rest read
          dsimp only at found
          split at found
          · cases found
          · split at found
            · cases found
            · split at found
              · cases found
              · cases found
                exact plain server reply replied role known _ rest read

end Note

/-! ## The lines a client is told when it is attached -/

section Lines

variable {m : Monitor} {server : Endpoint} {finding : Finding}

theorem lines_append {text : Bytes} (fresh : newline ∉ text) (line rest : Bytes) :
    SyncStream.lines line (text ++ rest) = SyncStream.lines (line ++ text) rest := by
  induction text generalizing line with
  | nil => rw [List.append_nil, List.nil_append]
  | cons b text ih =>
    have other : ¬ b = 10 := fun same => fresh (same ▸ List.mem_cons_self)
    rw [List.cons_append, SyncStream.lines, if_neg other,
      ih (fun mem => fresh (List.mem_cons_of_mem _ mem)), List.append_assoc]
    rfl

theorem lines_last {line : Bytes} (filled : line ≠ []) : SyncStream.lines line [] = [line] := by
  cases line with
  | nil => exact absurd rfl filled
  | cons b line => rfl

/-- The text of `problems` is cut where its lines were joined. -/
theorem lines_intercalate {texts : List Bytes} (each : ∀ t ∈ texts, t ≠ [] ∧ newline ∉ t) :
    SyncStream.lines [] ((bytes "\n").intercalate texts) = texts := by
  induction texts with
  | nil => rfl
  | cons first texts ih =>
    obtain ⟨filled, fresh⟩ := each first List.mem_cons_self
    cases texts with
    | nil =>
      rw [List.intercalate_singleton, ← List.append_nil first, lines_append fresh,
        List.nil_append, lines_last filled, List.append_nil]
    | cons second texts =>
      rw [List.intercalate_cons_cons, List.append_assoc, lines_append fresh, List.nil_append]
      have rest := ih fun t mem => each t (List.mem_cons_of_mem _ mem)
      have cut : ∀ more, SyncStream.lines first (bytes "\n" ++ more) =
          first :: SyncStream.lines [] more := by
        intro more
        rw [show bytes "\n" = [10] from rfl, List.singleton_append]
        cases first <;> rw [SyncStream.lines, if_pos rfl]
      rw [cut, rest]

theorem newline_not_mem_warning (plain : Plain server) (named : FindingPlain finding) :
    newline ∉ Health.warning server finding := by
  have key := (plain_key plain).2
  have front : newline ∉ bytes "warning: " ∧ newline ∉ bytes "expected server " := by
    decide +kernel
  unfold Health.warning
  rw [List.mem_append, not_or]
  refine ⟨front.1, ?_⟩
  cases finding with
  | up => exact List.not_mem_nil
  | notRunning =>
    simp only [Finding.detail, List.mem_append, not_or]
    exact ⟨front.2, key, by decide +kernel⟩
  | malformed =>
    simp only [Finding.detail, List.mem_append, not_or]
    exact ⟨front.2, key, by decide +kernel⟩
  | separate =>
    simp only [Finding.detail, List.mem_append, not_or]
    exact ⟨front.2, key, by decide +kernel⟩
  | follows primary =>
    have digits : ∀ d < 10, decimalChar d ≠ newline := by decide
    simp only [Finding.detail, List.mem_append, not_or]
    refine ⟨front.2, key, by decide +kernel, ?_, by decide +kernel⟩
    intro mem
    rcases List.mem_append.mp mem with inHost | inPort
    · exact named primary rfl inHost
    · rcases List.mem_cons.mp inPort with colon | inPort
      · exact absurd colon (by decide)
      · obtain ⟨d, small, same⟩ := digit_of_mem_unsignedText inPort
        exact digits d small same

theorem lines_problems (sane : Sane m) :
    SyncStream.lines [] (Health.problems m) = m.messages.toList.map Prod.snd := by
  have each : ∀ t ∈ m.messages.toList.map Prod.snd, t ≠ [] ∧ newline ∉ t := by
    intro t mem
    obtain ⟨⟨key, text⟩, entry, rfl⟩ := List.mem_map.mp mem
    obtain ⟨server, finding, plain, -, named, -, rfl⟩ :=
      sane.texts key text (Map.mem_toList_iff.mp entry)
    exact ⟨Health.warning_ne_nil server finding, newline_not_mem_warning plain named⟩
  have joined : Health.problems m = (bytes "\n").intercalate (m.messages.toList.map Prod.snd) := by
    unfold Health.problems
    cases listed : m.messages.toList with
    | nil => rfl
    | cons entry entries =>
      rw [listed] at each
      exact Health.foldl_lines entry.2 (each entry.2 List.mem_cons_self).1 entries
  rw [joined, lines_intercalate each]

/-- A client that is told the problems and then the changes still to be sent. -/
theorem Sane.join (sane : Sane m) {pending : List Bytes}
    (recent : Recent topics (current m) pending) : Follows topics (current m)
      (SyncStream.lines [] (Health.problems m) ++ pending) := by
  rw [lines_problems sane]
  refine recent.join (fun host text held => ?_) fun host text mem speaks => ?_
  · obtain ⟨server, finding, -, wrong, -, same, rfl⟩ := sane.texts _ text held
    refine ⟨List.mem_map.mpr ⟨_, Map.mem_toList_iff.mpr held, rfl⟩, ?_⟩
    obtain rfl := Health.Endpoint.key_inj.mp same
    exact about_warning wrong
  · obtain ⟨⟨key, held⟩, entry, rfl⟩ := List.mem_map.mp mem
    have present := Map.mem_toList_iff.mp entry
    obtain ⟨server, finding, plain, wrong, -, rfl, rfl⟩ := sane.texts key held present
    have same : host = ⟨server, plain⟩ := apart host ⟨server, plain⟩ _ speaks (about_warning wrong)
    rw [same]
    exact present

end Lines

/-! ## The invariant -/

namespace Stage

variable {κ : Type} [DecidableEq κ]

/-- The connections the notice being sent still goes to. -/
def left : Stage κ → List κ
  | .sending _ left _ => left
  | _ => []

/-- The changes noted that were not yet sent to everybody. -/
def pending : Stage κ → List Bytes
  | .resting => []
  | .checking _ _ reports => reports.filterMap Report.change
  | .notifying pending => pending
  | .sending text _ pending => text :: pending

/-- What still goes to the connection. -/
def toCome (j : κ) : Stage κ → List Bytes
  | .sending text left pending => if j ∈ left then text :: pending else pending
  | stage => stage.pending

end Stage

section Inv

variable {κ : Type} [DecidableEq κ] {s s' : State κ} {i j : κ} {phase : Phase}

/-- Told these lines, the client has heard what is kept and what is still to come. -/
def Tuned (s : State κ) (j : κ) (lines : List Bytes) : Prop :=
  s.lost j = false → (s.heard j).head? = some ⟨.ok, []⟩ ∧
    (j ∈ allSyncConnections s.table → Follows topics (current s.monitor)
      (told (s.heard j) ++ lines ++ s.stage.toCome j))

def Fine (s : State κ) (j : κ) : Phase → Prop
  | .idle | .locked _ | .primary _ | .refused =>
    s.heard j = [] ∧ j ∉ allSyncConnections s.table ∧ j ∉ s.stage.left
  | .attached _ => s.heard j = []
  | .greeted _ => s.lost j = false → s.heard j = [⟨.ok, []⟩]
  | .telling _ lines => Tuned s j lines
  | .serving _ | .leaving _ => Tuned s j []
  | .ended => True

structure Inv (s : State κ) : Prop where
  sane : Sane s.monitor
  recent : Recent topics (current s.monitor) s.stage.pending
  plain : ∀ round left reports, s.stage = .checking round left reports →
    RoundPlain round ∧ ∀ server ∈ left, Plain server
  fine : ∀ j, Fine s j (s.sync j)

omit [DecidableEq κ] in
theorem mem_allSyncConnections {table : Table κ} :
    j ∈ allSyncConnections table ↔ ∃ entry ∈ table, entry.2.sync = some j := by
  rw [allSyncConnections, List.mem_filterMap]
  exact exists_congr fun entry => and_congr_left fun _ => List.mem_mergeSort

omit [DecidableEq κ] in
theorem mem_setSync {table : Table κ} {token : Bytes} {sync : Option κ}
    (mem : i ∈ allSyncConnections (SessionTable.setSync table token sync)) :
    i ∈ allSyncConnections table ∨ sync = some i := by
  obtain ⟨entry, there, attached⟩ := mem_allSyncConnections.mp mem
  obtain ⟨old, before, rfl⟩ := List.mem_map.mp there
  dsimp only at attached
  split at attached
  · exact .inr attached
  · exact .inl (mem_allSyncConnections.mpr ⟨old, before, attached⟩)

theorem mem_detachSync {table : Table κ} {token : Bytes}
    (mem : i ∈ allSyncConnections (SessionTable.detachSync table token j)) :
    i ∈ allSyncConnections table := by
  rcases SessionTable.detachSync_spec table token j with same | cleared
  · exact same ▸ mem
  · rw [cleared] at mem
    exact (mem_setSync mem).resolve_right (Option.some_ne_none i ∘ Eq.symm)

omit [DecidableEq κ] in
theorem mem_closeSession {table : Table κ} {token : Bytes}
    (mem : i ∈ allSyncConnections (SessionTable.closeSession table token).1) :
    i ∈ allSyncConnections table := by
  unfold SessionTable.closeSession at mem
  split at mem
  · exact mem
  · obtain ⟨entry, kept, attached⟩ := mem_allSyncConnections.mp mem
    exact mem_allSyncConnections.mpr ⟨entry, (List.mem_filter.mp kept).1, attached⟩

/-- A connection that hears nothing is as before, whatever is noted and taken up. -/
theorem Fine.mono (fine : Fine s j phase) (heard : s'.heard j = s.heard j)
    (lost : s'.lost j = s.lost j)
    (syncs : j ∈ allSyncConnections s'.table → j ∈ allSyncConnections s.table)
    (left : j ∈ s'.stage.left → j ∈ s.stage.left ∨ j ∈ allSyncConnections s.table)
    (follows : j ∈ allSyncConnections s'.table → ∀ h,
      Follows topics (current s.monitor) (h ++ s.stage.toCome j) →
        Follows topics (current s'.monitor) (h ++ s'.stage.toCome j)) : Fine s' j phase := by
  have tuned : ∀ lines, Tuned s j lines → Tuned s' j lines := by
    intro lines before whole
    rw [lost] at whole
    rw [heard]
    exact ⟨(before whole).1, fun mem => follows mem _ ((before whole).2 (syncs mem))⟩
  have away : s.heard j = [] ∧ j ∉ allSyncConnections s.table ∧ j ∉ s.stage.left →
      s'.heard j = [] ∧ j ∉ allSyncConnections s'.table ∧ j ∉ s'.stage.left := by
    rintro ⟨nothing, detached, out⟩
    exact ⟨heard.trans nothing, fun mem => detached (syncs mem),
      fun mem => (left mem).elim out detached⟩
  cases phase with
  | idle => exact away fine
  | locked token => exact away fine
  | primary token => exact away fine
  | refused => exact away fine
  | attached token => exact heard.trans fine
  | greeted token => exact fun whole => heard.trans (fine (lost ▸ whole))
  | telling token lines => exact tuned lines fine
  | serving token => exact tuned [] fine
  | leaving token => exact tuned [] fine
  | ended => trivial

/-- A step of a connection's own thread. -/
theorem Inv.thread (inv : Inv s) (j : κ) (monitor : s'.monitor = s.monitor)
    (stage : s'.stage = s.stage)
    (others : ∀ i, i ≠ j → s'.sync i = s.sync i ∧ s'.heard i = s.heard i ∧ s'.lost i = s.lost i ∧
      (i ∈ allSyncConnections s'.table → i ∈ allSyncConnections s.table))
    (own : Fine s' j (s'.sync j)) : Inv s' where
  sane := monitor ▸ inv.sane
  recent := by
    rw [monitor, stage]
    exact inv.recent
  plain := by
    rw [stage]
    exact inv.plain
  fine i := by
    by_cases same : i = j
    · exact same ▸ own
    · obtain ⟨phase, heard, lost, syncs⟩ := others i same
      rw [phase]
      refine (inv.fine i).mono heard lost syncs (fun mem => .inl (stage ▸ mem)) fun _ h before => ?_
      rw [monitor, stage]
      exact before

/-! ### The rounds -/

theorem look_spec (me : Endpoint) {round : Round} {m : Monitor} {server : Endpoint} (sane : Sane m)
    (plain : Plain server) (replies : RoundPlain round) :
    Sane (look me round m server).1 ∧
      (∀ h, Follows topics (current m) h → Follows topics (current (look me round m server).1)
        (h ++ (look me round m server).2.toList.filterMap Report.change)) ∧
      ∀ h, Recent topics (current m) h → Recent topics (current (look me round m server).1)
        (h ++ (look me round m server).2.toList.filterMap Report.change) := by
  unfold look
  dsimp only
  split
  · refine ⟨sane.cache, fun h before => ?_, fun h before => ?_⟩
    · rwa [Option.toList_none, List.filterMap_nil, List.append_nil]
    · rwa [Option.toList_none, List.filterMap_nil, List.append_nil]
  · generalize resolved : (Health.same round.lookUp m.resolved server me).2 = cache
    have named := plain_examine replies cache server
    generalize Health.examine round cache server = found at named
    have before : Sane { m with resolved := found.2 } := sane.cache
    refine ⟨before.note plain named, ?_⟩
    simp only [Option.toList_some, List.filterMap_cons, List.filterMap_nil]
    rcases note_spec before plain found.1 with ⟨silent, same⟩ | ⟨said, gone⟩ | ⟨wrong, said, new⟩
    · rw [silent, same]
      simp only [List.append_nil]
      exact ⟨fun h follows => follows, fun h recent => recent⟩
    · rw [said, gone]
      have speaks : topics.about ⟨server, plain⟩ (topics.gone ⟨server, plain⟩) = true :=
        about_back server
      exact ⟨fun h follows => Follows.retract apart speaks follows,
        fun h recent => Recent.retract apart speaks recent⟩
    · rw [said, new]
      have speaks : topics.about ⟨server, plain⟩ (Health.warning server found.1) = true :=
        about_warning wrong
      exact ⟨fun h follows => Follows.say apart speaks follows,
        fun h recent => Recent.say apart speaks recent⟩

theorem silent_summary (expected : List Endpoint) (reports : List Report) :
    ∀ t ∈ Health.summary expected reports, ∀ k : Host, topics.about k t = false := by
  intro t mem k
  unfold Health.summary at mem
  dsimp only at mem
  split at mem
  · change about k.1 t = false
    rw [List.mem_singleton.mp mem, List.append_assoc]
    exact about_all _
  · cases mem

/-- A step of the thread of the rounds, after which each connection is told the same. -/
theorem Inv.rounds (inv : Inv s) (sane : Sane s'.monitor)
    (recent : Recent topics (current s'.monitor) s'.stage.pending)
    (plain : ∀ round left reports, s'.stage = .checking round left reports →
      RoundPlain round ∧ ∀ server ∈ left, Plain server)
    (heard : s'.heard = s.heard) (lost : s'.lost = s.lost) (sync : s'.sync = s.sync)
    (table : s'.table = s.table)
    (left : ∀ j ∈ s'.stage.left, j ∈ s.stage.left ∨ j ∈ allSyncConnections s.table)
    (follows : ∀ j ∈ allSyncConnections s.table, ∀ h,
      Follows topics (current s.monitor) (h ++ s.stage.toCome j) →
        Follows topics (current s'.monitor) (h ++ s'.stage.toCome j)) : Inv s' where
  sane := sane
  recent := recent
  plain := plain
  fine j := by
    rw [sync]
    refine (inv.fine j).mono (by rw [heard]) (by rw [lost]) (fun mem => table ▸ mem) (left j) ?_
    rw [table]
    exact follows j

theorem Inv.look {me : Endpoint} {expected : List Endpoint} (inv : Inv s)
    (stepped : step me expected s .look = some s') : Inv s' := by
  simp only [step] at stepped
  split at stepped
  · rename_i round server left reports stage
    cases stepped
    obtain ⟨replies, plain⟩ := inv.plain _ _ _ stage
    obtain ⟨sane, follows, recent⟩ := look_spec me inv.sane (plain server List.mem_cons_self)
      replies
    refine inv.rounds sane ?_ ?_ rfl rfl rfl rfl (fun _ mem => by cases mem) fun j _ h before => ?_
    · have pending := inv.recent
      rw [stage] at pending
      simp only [Stage.pending, List.filterMap_append]
      exact recent _ pending
    · rintro _ _ _ ⟨⟩
      exact ⟨replies, fun other mem => plain other (List.mem_cons_of_mem _ mem)⟩
    · rw [stage] at before
      simp only [Stage.toCome, Stage.pending, List.filterMap_append] at before ⊢
      rw [← List.append_assoc]
      exact follows _ before
  · rename_i round reports stage
    cases stepped
    have silent := silent_summary expected reports
    refine inv.rounds inv.sane ?_ (fun _ _ _ is => by cases is) rfl rfl rfl rfl
      (fun _ mem => by cases mem) fun j _ h before => ?_
    · have pending := inv.recent
      rw [stage] at pending
      exact Recent.append_silent silent pending
    · rw [stage] at before
      simp only [Stage.toCome, Stage.pending] at before ⊢
      rw [Health.notices, ← List.append_assoc]
      exact before.append_silent silent
  · cases stepped

theorem Inv.notify {me : Endpoint} {expected : List Endpoint} (inv : Inv s)
    (orderly : Orderly s .notify) (stepped : step me expected s .notify = some s') : Inv s' := by
  simp only [step] at stepped
  split at stepped
  · rename_i text pending stage
    have before := inv.recent
    rw [stage] at before
    split at stepped
    · split at stepped
      · cases stepped
        refine inv.rounds inv.sane before (fun _ _ _ is => by cases is) rfl rfl rfl rfl
          (fun _ mem => .inr mem) fun j attached h follows => ?_
        rw [stage] at follows
        simp only [Stage.toCome, if_pos attached]
        exact follows
      · cases stepped
    · rename_i secondary
      cases stepped
      simp only [Orderly, stage] at orderly
      have nobody := (orderly rfl).resolve_left secondary
      refine inv.rounds inv.sane before.tail (fun _ _ _ is => by cases is) rfl rfl rfl rfl
        (fun _ mem => by cases mem) fun j attached => ?_
      rw [nobody] at attached
      cases attached
  · rename_i stage
    cases stepped
    refine inv.rounds inv.sane recent_nil (fun _ _ _ is => by cases is) rfl rfl rfl rfl
      (fun _ mem => by cases mem) fun j _ h follows => ?_
    rw [stage] at follows
    exact follows
  · cases stepped

/-! ### The sends -/

section Send

variable {m : Message} {sent : Bool}

@[simp] theorem send_monitor : (s.send j m sent).monitor = s.monitor := by
  unfold State.send
  split <;> rfl

@[simp] theorem send_stage : (s.send j m sent).stage = s.stage := by
  unfold State.send
  split <;> rfl

@[simp] theorem send_table : (s.send j m sent).table = s.table := by
  unfold State.send
  split <;> rfl

@[simp] theorem send_sync : (s.send j m sent).sync = s.sync := by
  unfold State.send
  split <;> rfl

theorem send_of_ne (m : Message) (sent : Bool) (apart : i ≠ j) :
    (s.send j m sent).heard i = s.heard i ∧ (s.send j m sent).lost i = s.lost i := by
  unfold State.send
  split
  · exact ⟨Function.update_of_ne apart .., rfl⟩
  · exact ⟨rfl, Function.update_of_ne apart ..⟩

/-- On a connection not lost the message was sent. -/
theorem send_self (whole : (s.send j m sent).lost j = false) :
    s.lost j = false ∧ (s.send j m sent).heard j = s.heard j ++ [m] := by
  unfold State.send at whole ⊢
  split at whole
  · rename_i ok
    rw [if_pos ok]
    exact ⟨whole, Function.update_self ..⟩
  · have broken : Function.update s.lost j true j = true := Function.update_self ..
    cases broken.symm.trans whole

omit [DecidableEq κ] in
theorem head_send {first : Message} (head : (s.heard j).head? = some first) :
    (s.heard j ++ [m]).head? = some first := by
  rw [List.head?_append, head]
  rfl

/-- One of the lines is sent. -/
theorem Tuned.send_line {line payload : Bytes} {lines : List Bytes}
    (tuned : Tuned s j (line :: lines)) (written : Writer.str line = some payload) :
    Tuned (s.send j ⟨.notice, payload⟩ sent) j lines := by
  intro whole
  obtain ⟨before, heard⟩ := send_self whole
  obtain ⟨head, follows⟩ := tuned before
  rw [heard, told_concat written, send_table, send_monitor, send_stage, List.append_assoc _ [line]]
  exact ⟨head_send head, follows⟩

/-- Something is sent that is no notice. -/
theorem Tuned.send_other {lines : List Bytes} (tuned : Tuned s j lines) (other : m.type ≠ .notice) :
    Tuned (s.send j m sent) j lines := by
  intro whole
  obtain ⟨before, heard⟩ := send_self whole
  obtain ⟨head, follows⟩ := tuned before
  rw [heard, told_concat_of_ne other, send_table, send_monitor, send_stage]
  exact ⟨head_send head, follows⟩

/-- The notice that was to go to the connection is sent. -/
theorem Tuned.deliver {text payload : Bytes} {left : List κ} {pending : List Bytes}
    (tuned : Tuned s j []) (stage : s.stage = .sending text (j :: left) pending)
    (written : Writer.str text = some payload) :
    Tuned { s.send j ⟨.notice, payload⟩ sent with stage := .sending text left pending } j [] := by
  intro whole
  obtain ⟨before, heard⟩ := send_self whole
  obtain ⟨head, follows⟩ := tuned before
  dsimp only
  rw [heard, told_concat written, send_table, send_monitor]
  refine ⟨head_send head, fun mem => ?_⟩
  have told := follows mem
  rw [stage, Stage.toCome, if_pos List.mem_cons_self, List.append_nil] at told
  rw [Stage.toCome, List.append_nil]
  split
  · exact told.again
  · rwa [List.append_assoc, List.singleton_append]

end Send

theorem Inv.deliver {me : Endpoint} {expected : List Endpoint} {sent : Bool} (inv : Inv s)
    (stepped : step me expected s (.deliver sent) = some s') : Inv s' := by
  simp only [step] at stepped
  split at stepped
  · rename_i text j left pending stage
    split at stepped
    · rename_i payload written
      split at stepped
      · cases stepped
      rename_i free
      cases stepped
      have recent := inv.recent
      rw [stage] at recent
      refine ⟨?_, ?_, (fun _ _ _ is => by cases is), fun i => ?_⟩
      · exact send_monitor (s := s) ▸ inv.sane
      · simp only [send_monitor]
        exact recent
      · have fine := inv.fine i
        simp only [send_sync]
        by_cases same : i = j
        · subst same
          have away : i ∈ s.stage.left := by
            rw [stage]
            exact List.mem_cons_self
          cases phase : s.sync i with
          | idle =>
            rw [phase] at fine
            exact absurd away fine.2.2
          | serving token =>
            rw [phase] at fine
            exact Tuned.deliver fine stage written
          | leaving token =>
            rw [phase] at fine
            exact Tuned.deliver fine stage written
          | ended => trivial
          | _ =>
            rw [phase] at free
            exact absurd rfl free
        · obtain ⟨heard, lost⟩ := send_of_ne ⟨.notice, payload⟩ sent same
          refine fine.mono heard lost (fun mem => send_table (s := s) ▸ mem) (fun mem => ?_)
            fun _ h before => ?_
          · rw [stage]
            exact .inl (List.mem_cons_of_mem _ mem)
          · rw [stage, Stage.toCome] at before
            simp only [send_monitor, Stage.toCome]
            simp only [List.mem_cons, same, false_or] at before
            exact before
    · cases stepped
  · rename_i text pending stage
    cases stepped
    have recent := inv.recent
    rw [stage] at recent
    refine inv.rounds inv.sane recent.tail (fun _ _ _ is => by cases is) rfl rfl rfl rfl
      (fun _ mem => by cases mem) fun j _ h before => ?_
    rw [stage, Stage.toCome, if_neg List.not_mem_nil] at before
    exact before
  · cases stepped

/-! ### The connections -/

/-- A connection's thread goes on, having sent nothing. -/
theorem Inv.enter (inv : Inv s) {table : Table κ} (own : Fine { s with table } j phase)
    (syncs : ∀ i, i ≠ j → i ∈ allSyncConnections table → i ∈ allSyncConnections s.table) :
    Inv (State.enter { s with table } j phase) := by
  refine inv.thread j rfl rfl (fun i other => ?_) ?_
  · exact ⟨Function.update_of_ne other .., rfl, rfl, syncs i other⟩
  · rw [show (State.enter { s with table } j phase).sync j = phase from Function.update_self ..]
    exact own.mono rfl rfl id .inl fun _ _ => id

/-- A connection's thread goes on, having sent a message. -/
theorem Inv.sent {m : Message} {sent : Bool} (inv : Inv s) (own : Fine (s.send j m sent) j phase) :
    Inv ((s.send j m sent).enter j phase) := by
  refine inv.thread j send_monitor send_stage (fun i other => ?_) ?_
  · obtain ⟨heard, lost⟩ := send_of_ne m sent other
    refine ⟨?_, heard, lost, fun mem => ?_⟩
    · exact (Function.update_of_ne other ..).trans (congrFun send_sync i)
    · exact send_table (s := s) ▸ mem
  · rw [show ((s.send j m sent).enter j phase).sync j = phase from Function.update_self ..]
    exact own.mono rfl rfl id .inl fun _ _ => id

theorem Inv.serve {me : Endpoint} {expected : List Endpoint} {sent : Bool} (inv : Inv s)
    (stepped : step me expected s (.serve j sent) = some s') : Inv s' := by
  have fine := inv.fine j
  simp only [step] at stepped
  split at stepped
  · rename_i token here
    cases stepped
    rw [here] at fine
    refine inv.enter ?_ fun _ _ => id
    split <;> exact fine
  · rename_i token here
    rw [here] at fine
    split at stepped
    · rename_i table attached
      cases stepped
      rw [SessionTable.attachSync_spec attached]
      refine inv.enter fine.1 fun i other mem => ?_
      exact (mem_setSync mem).resolve_right fun same => other (Option.some.inj same).symm
    · cases stepped
      exact inv.enter fine fun _ _ => id
  · rename_i token here
    cases stepped
    rw [here] at fine
    refine inv.sent fun whole => ?_
    rw [(send_self whole).2, show s.heard j = [] from fine]
    rfl
  · rename_i token here
    cases stepped
    rw [here] at fine
    refine inv.enter (fun whole => ?_) fun _ _ => id
    have greeting : s.heard j = [⟨.ok, []⟩] := fine whole
    have nothing : told [⟨.ok, []⟩] = [] := rfl
    dsimp only
    rw [greeting, nothing]
    refine ⟨rfl, fun _ => inv.sane.join ?_⟩
    -- of the notice that is being sent the connection hears or does not
    have recent := inv.recent
    cases stage : s.stage with
    | sending text left pending =>
      rw [stage] at recent
      rw [Stage.toCome]
      split
      · exact recent
      · exact recent.tail
    | _ =>
      rw [stage] at recent
      exact recent
  · rename_i token line lines here
    rw [here] at fine
    split at stepped
    · rename_i payload written
      cases stepped
      exact inv.sent (Tuned.send_line fine written)
    · cases stepped
      exact inv.enter trivial fun _ _ => id
  · rename_i token here
    cases stepped
    rw [here] at fine
    exact inv.enter fine fun _ _ => id
  · cases stepped
    exact inv.sent trivial
  · cases stepped
    exact inv.enter trivial fun _ _ => mem_detachSync
  · cases stepped

/-- The table of sessions changes, and no connection is attached. -/
theorem Inv.setTable (inv : Inv s) {table : Table κ}
    (syncs : ∀ i ∈ allSyncConnections table, i ∈ allSyncConnections s.table) :
    Inv { s with table } where
  sane := inv.sane
  recent := inv.recent
  plain := inv.plain
  fine i := (inv.fine i).mono rfl rfl (syncs i) .inl fun _ _ => id

theorem Inv.push {me : Endpoint} {expected : List Endpoint} {m : Message} {sent : Bool}
    (inv : Inv s) (stepped : step me expected s (.push j m sent) = some s') : Inv s' := by
  have goes : ∀ phase, s.sync j = phase → Fine (s.send j m sent) j phase →
      Inv (s.send j m sent) := by
    intro phase here fine
    refine inv.thread j send_monitor send_stage (fun i other => ?_) ?_
    · obtain ⟨heard, lost⟩ := send_of_ne m sent other
      exact ⟨congrFun send_sync i, heard, lost, fun mem => send_table (s := s) ▸ mem⟩
    · rw [send_sync, here]
      exact fine
  have fine := inv.fine j
  simp only [step] at stepped
  split at stepped
  · rename_i token here
    split at stepped <;> cases stepped
    rename_i other
    rw [here] at fine
    exact goes _ here (Tuned.send_other fine other)
  · rename_i token here
    split at stepped <;> cases stepped
    rename_i other
    rw [here] at fine
    exact goes _ here (Tuned.send_other fine other)
  · rename_i here
    split at stepped <;> cases stepped
    exact goes _ here trivial
  · cases stepped

theorem Inv.step {me : Endpoint} {expected : List Endpoint} {a : Action κ}
    (plain : ∀ server ∈ expected, Plain server) (inv : Inv s) (orderly : Orderly s a)
    (replies : ∀ round, a = .round round → RoundPlain round)
    (stepped : step me expected s a = some s') : Inv s' := by
  cases a with
  | look => exact inv.look stepped
  | notify => exact inv.notify orderly stepped
  | deliver sent => exact inv.deliver stepped
  | serve j sent => exact inv.serve stepped
  | push j m sent => exact inv.push stepped
  | round round =>
    simp only [Notices.step] at stepped
    split at stepped <;> cases stepped
    rename_i resting
    refine inv.rounds inv.sane recent_nil ?_ rfl rfl rfl rfl (fun _ mem => by cases mem)
      fun j _ h before => ?_
    · rintro _ _ _ ⟨⟩
      exact ⟨replies round rfl, plain⟩
    · rw [resting] at before
      exact before
  | elect primary =>
    cases stepped
    exact ⟨inv.sane, inv.recent, inv.plain, fun i =>
      (inv.fine i).mono rfl rfl id .inl fun _ _ => id⟩
  | openSession user token command =>
    simp only [Notices.step] at stepped
    split at stepped <;> cases stepped
    rename_i table opened
    rw [(SessionTable.openSession_spec opened).1]
    refine inv.setTable fun i mem => ?_
    obtain ⟨entry, there, attached⟩ := mem_allSyncConnections.mp mem
    rcases List.mem_cons.mp there with rfl | old
    · cases attached
    · exact mem_allSyncConnections.mpr ⟨entry, old, attached⟩
  | closeSession token =>
    cases stepped
    exact inv.setTable fun i => mem_closeSession
  | accept j token =>
    have fine := inv.fine j
    simp only [Notices.step] at stepped
    split at stepped <;> cases stepped
    rename_i here
    rw [here] at fine
    exact inv.enter fine fun _ _ => id
  | hangup j =>
    have fine := inv.fine j
    simp only [Notices.step] at stepped
    split at stepped <;> cases stepped
    rename_i token here
    rw [here] at fine
    exact inv.enter fine fun _ _ => id

theorem inv_init (primary : Bool) : Inv (init κ primary) where
  sane := sane_init
  recent := recent_nil
  plain := fun _ _ _ is => by cases is
  fine j := by
    refine ⟨rfl, fun mem => ?_, fun mem => by cases mem⟩
    obtain ⟨entry, there, -⟩ := mem_allSyncConnections.mp mem
    cases there

end Inv

/-! ## What the clients hear -/

/-- In every run in which a server that is not the primary leaves out no notice while a
client is attached: between two rounds, each client served that is attached, and on whose
connection no send failed, got the Ok first; of each server it has heard last the problem
there is with it, if there is one, and else nothing or that the server is back. -/
theorem heard_current {κ : Type} [DecidableEq κ] {me : Endpoint} {expected : List Endpoint}
    {primary : Bool} {actions : List (Action κ)} {s : State κ}
    (plain : ∀ server ∈ expected, Plain server)
    (replies : ∀ round, Action.round round ∈ actions → RoundPlain round)
    (orderly : Meets (step me expected) Orderly (init κ primary) actions)
    (ran : run (step me expected) (init κ primary) actions = some s)
    (resting : s.stage = .resting) {j : κ} {token : Bytes} (serving : s.sync j = .serving token)
    (attached : j ∈ allSyncConnections s.table) (whole : s.lost j = false) :
    (s.heard j).head? = some ⟨.ok, []⟩ ∧ ∀ server, Plain server →
      match s.monitor.messages[server.key]? with
      | some text => last (about server) (told (s.heard j)) = some text
      | none => last (about server) (told (s.heard j)) = none ∨
          last (about server) (told (s.heard j)) = some (back server) := by
  have plainly : Meets (step me expected) (fun _ a => ∀ round, a = .round round → RoundPlain round)
      (init κ primary) actions := by
    refine Meets.of_forall (fun a mem _ round is => replies round ?_) _
    rw [← is]
    exact mem
  have allowed := orderly.and plainly
  have inv : Inv s := run_invariant
    (fun _ _ _ inv allowed => inv.step plain allowed.1 allowed.2) (inv_init primary) allowed ran
  have fine := inv.fine j
  rw [serving] at fine
  obtain ⟨head, follows⟩ := fine whole
  refine ⟨head, fun server named => ?_⟩
  have heard := follows attached ⟨server, named⟩
  simp only [resting, Stage.toCome, Stage.pending, List.append_nil] at heard
  rcases heard with same | ⟨gone, said⟩
  · change last (about server) (told (s.heard j)) = s.monitor.messages[server.key]? at same
    rw [same]
    split
    · rename_i text kept
      exact kept
    · rename_i nothing
      exact .inl nothing
  · change s.monitor.messages[server.key]? = none at gone
    rw [gone]
    exact .inr said

section Examples

private def here : Endpoint := ⟨bytes "a", 4000⟩
private def there : Endpoint := ⟨bytes "b", 4001⟩

private def alone : Round := ⟨[], fun _ => none, fun _ => none, fun _ => none⟩
private def joined : Round := { alone with members := [⟨2, bytes "b", 4001⟩] }

/-- A client is attached after `there` was found not to run, and is told so as a problem
and then as a change; later `there` joins. -/
private def toldTwice : List (Action Bool) :=
  [.openSession [7] [1] true, .accept false [1], .round alone, .look, .look,
    .serve false true, .serve false true, .notify, .serve false true, .serve false true,
    .serve false true, .serve false true, .deliver true, .deliver true, .notify,
    .round joined, .look, .look, .notify, .deliver true, .deliver true,
    .notify, .deliver true, .deliver true, .notify]

private def after : State Bool :=
  (run (step here [there]) (init Bool true) toldTwice).get (by decide +kernel)

theorem heard_back : (after.heard false).head? = some ⟨.ok, []⟩ ∧ ∀ server, Plain server →
    match after.monitor.messages[server.key]? with
    | some text => last (about server) (told (after.heard false)) = some text
    | none => last (about server) (told (after.heard false)) = none ∨
        last (about server) (told (after.heard false)) = some (back server) := by
  have plain : ∀ server ∈ [there], Plain server := by
    intro server mem
    obtain rfl := List.mem_singleton.mp mem
    exact ⟨by decide, by decide⟩
  have replies : ∀ round, Action.round round ∈ toldTwice → RoundPlain round := by
    intro round mem server reply replied
    simp only [toldTwice, List.mem_cons, reduceCtorEq, Action.round.injEq, List.not_mem_nil,
      false_or, or_false] at mem
    rcases mem with rfl | rfl <;> cases replied
  have resting : after.stage = .resting := by
    have fact : (match after.stage with | .resting => true | _ => false) = true := by
      decide +kernel
    split at fact
    · assumption
    · cases fact
  have serving : after.sync false = .serving [1] := by
    have fact : (match after.sync false with | .serving token => token == [1] | _ => false) =
        true := by
      decide +kernel
    split at fact
    · rename_i token here
      rw [here, beq_iff_eq.mp fact]
    · cases fact
  exact heard_current plain replies (by decide +kernel) (Option.some_get _).symm resting serving
    (by decide +kernel) (by decide +kernel)

end Examples

end SisOp.Notices
