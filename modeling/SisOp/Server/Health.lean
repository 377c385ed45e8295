import SisOp.Common.Text
import SisOp.Lib.Map

/-!
# Health of the expected servers

`server/health.cpp`: the rounds in which the expected servers that are no members are
probed, the messages kept of those that are not up, and the notifications. Host names
are compared by the address they resolve to, which is looked up once.

Main result: `current_iff`, the messages are those of the last round, and each change
is notified, unless a server stays in one state for another reason.
-/

namespace SisOp.Health

open Lib Std

structure Endpoint where
  host : Bytes
  port : UInt16
  deriving DecidableEq

/-- `key`. -/
def Endpoint.key (server : Endpoint) : Bytes := hostPort server.host server.port

/-- `State`. -/
inductive Status where
  | unknown | up | down | separate | split
  deriving DecidableEq, Repr

structure Monitor where
  states : ExtTreeMap Bytes Status
  messages : ExtTreeMap Bytes Bytes
  resolved : ExtTreeMap Bytes Bytes

def Monitor.init : Monitor := ⟨∅, ∅, ∅⟩

/-- What a round meets: the members, the address a host name would resolve to, and for
each server its reply, when one comes, and the primary this server follows just then. -/
structure Round where
  members : List ServerAddress
  lookUp : Bytes → Option Bytes
  reply : Endpoint → Option Message
  primary : Endpoint → Option ServerAddress

/-! ## Comparing servers -/

/-- `resolve`; a host that cannot be looked up stands for itself. -/
def resolve (lookUp : Bytes → Option Bytes) (resolved : ExtTreeMap Bytes Bytes) (host : Bytes) :
    Bytes × ExtTreeMap Bytes Bytes :=
  match resolved[host]? with
  | some ip => (ip, resolved)
  | none => ((lookUp host).getD host, resolved.insert host ((lookUp host).getD host))

def same (lookUp : Bytes → Option Bytes) (resolved : ExtTreeMap Bytes Bytes) (a b : Endpoint) :
    Bool × ExtTreeMap Bytes Bytes :=
  if a.port = b.port then
    if a.host = b.host then (true, resolved)
    else
      let first := resolve lookUp resolved a.host
      let second := resolve lookUp first.2 b.host
      (first.1 == second.1, second.2)
  else (false, resolved)

/-- Whether one of the members is the server; the others are not looked at then. -/
def isMember (lookUp : Bytes → Option Bytes) (server : Endpoint) :
    List ServerAddress → ExtTreeMap Bytes Bytes → Bool × ExtTreeMap Bytes Bytes
  | [], resolved => (false, resolved)
  | m :: members, resolved =>
    let one := same lookUp resolved server ⟨m.host, m.port⟩
    if one.1 then one else isMember lookUp server members one.2

/-! ## Probing -/

/-- What a round finds out about a server. -/
inductive Finding where
  | up
  | notRunning
  | malformed
  | separate
  | follows (primary : Endpoint)
  deriving DecidableEq

namespace Finding

def state : Finding → Status
  | up => .up
  | notRunning | malformed => .down
  | separate => .separate
  | follows _ => .split

def detail (server : Endpoint) : Finding → Bytes
  | up => []
  | notRunning =>
    bytes "expected server " ++ (server.key ++ bytes " is not running (or can't be reached)")
  | malformed => bytes "expected server " ++ (server.key ++ bytes " sent a malformed status reply")
  | separate => bytes "expected server " ++ (server.key ++
      bytes " is running as a separate primary (a network split, or it was started without --join)")
  | follows primary => bytes "expected server " ++ (server.key ++
      (bytes " follows a different primary (" ++ (primary.key ++ bytes "): the cluster is split")))

end Finding

def readStatus : Reader (UInt8 × Bool × Endpoint) := do
  let role ← Reader.u8
  let known ← Reader.u8
  let primary ← readServer
  pure (role, known != 0, ⟨primary.host, primary.port⟩)

/-- Whether the primary it follows is the one this server follows. -/
def followsOurs (round : Round) (resolved : ExtTreeMap Bytes Bytes) (server theirs : Endpoint)
    (role : UInt8) (known : Bool) : Bool × ExtTreeMap Bytes Bytes :=
  match round.primary server with
  | some ours =>
    if role ≠ 2 ∧ known = true then same round.lookUp resolved theirs ⟨ours.host, ours.port⟩
    else (false, resolved)
  | none => (false, resolved)

/-- `probe`, and what `check` makes of its exception. -/
def probe (round : Round) (resolved : ExtTreeMap Bytes Bytes) (server : Endpoint) :
    Finding × ExtTreeMap Bytes Bytes :=
  match round.reply server with
  | none => (.notRunning, resolved)
  | some reply =>
    if reply.type ≠ .status then (.notRunning, resolved)
    else
      match readStatus.run reply.payload with
      | none => (.malformed, resolved)
      | some ((role, known, theirs), _) =>
        let ours := followsOurs round resolved server theirs role known
        if ours.1 then (.up, ours.2)
        else if role = 2 then (.separate, ours.2)
        else if known = false then (.up, ours.2)
        else (.follows theirs, ours.2)

/-- The finding of a round: a member is up. -/
def examine (round : Round) (resolved : ExtTreeMap Bytes Bytes) (server : Endpoint) :
    Finding × ExtTreeMap Bytes Bytes :=
  let member := isMember round.lookUp server round.members resolved
  if member.1 then (.up, member.2) else probe round member.2 server

/-! ## A round -/

def warning (server : Endpoint) (finding : Finding) : Bytes :=
  bytes "warning: " ++ finding.detail server

/-- What is kept of a finding, and the change to notify. -/
def note (m : Monitor) (server : Endpoint) (finding : Finding) : Monitor × Option Bytes :=
  let previous := m.states[server.key]?.getD .unknown
  let states := m.states.insert server.key finding.state
  if finding.state = previous then ({ m with states }, none)
  else if finding.state = .up then
    ({ m with states, messages := m.messages.erase server.key },
      if previous = .unknown then none
      else some (bytes "expected server " ++ (server.key ++ bytes " is back in the cluster")))
  else
    ({ m with states, messages := m.messages.insert server.key (warning server finding) },
      some (warning server finding))

structure Report where
  server : Endpoint
  finding : Finding
  change : Option Bytes

/-- The loop of `check` over the expected servers; `me` is this one. -/
def checkAll (me : Endpoint) (round : Round) : List Endpoint → Monitor → Monitor × List Report
  | [], m => (m, [])
  | server :: expected, m =>
    let mine := same round.lookUp m.resolved server me
    if mine.1 then checkAll me round expected { m with resolved := mine.2 }
    else
      let found := examine round mine.2 server
      let noted := note { m with resolved := found.2 } server found.1
      let rest := checkAll me round expected noted.1
      (rest.1, ⟨server, found.1, noted.2⟩ :: rest.2)

/-- The last line of a round with changes after which nothing is wrong. -/
def summary (expected : List Endpoint) (reports : List Report) : List Bytes :=
  let total := if reports.length = expected.length then expected.length + 1 else expected.length
  if reports.filterMap Report.change ≠ [] ∧ reports.all fun r => r.finding = .up then
    [bytes "all " ++ unsignedText total ++ bytes " expected servers are up"]
  else []

/-- What `check` passes to `notify`. -/
def notices (expected : List Endpoint) (reports : List Report) : List Bytes :=
  reports.filterMap Report.change ++ summary expected reports

/-- `problems`. -/
def problems (m : Monitor) : Bytes :=
  m.messages.toList.foldl (fun text entry =>
    text ++ ((if text.isEmpty then [] else bytes "\n") ++ entry.2)) []

/-! ## The cache of addresses -/

/-- What is resolved stays so. -/
def Extends (resolved later : ExtTreeMap Bytes Bytes) : Prop :=
  ∀ host ip : Bytes, resolved[host]? = some ip → later[host]? = some ip

/-- The answer of `same` as the addresses give it. -/
def sameIn (resolved : ExtTreeMap Bytes Bytes) (a b : Endpoint) : Bool :=
  a.port == b.port && (a.host == b.host || resolved[a.host]? == resolved[b.host]?)

section Cache

variable {lookUp : Bytes → Option Bytes} {resolved later : ExtTreeMap Bytes Bytes}
  {round : Round} {a b server : Endpoint}

theorem Extends.refl (resolved : ExtTreeMap Bytes Bytes) : Extends resolved resolved :=
  fun _ _ present => present

theorem Extends.trans {middle : ExtTreeMap Bytes Bytes} (first : Extends resolved middle)
    (second : Extends middle later) : Extends resolved later :=
  fun host ip present => second host ip (first host ip present)

/-- A name looked up is kept with its address, and those kept before stay. -/
theorem resolve_spec (lookUp : Bytes → Option Bytes) (resolved : ExtTreeMap Bytes Bytes)
    (host : Bytes) : Extends resolved (resolve lookUp resolved host).2 ∧
      (resolve lookUp resolved host).2[host]? = some (resolve lookUp resolved host).1 := by
  unfold resolve
  split
  · rename_i ip cached
    exact ⟨.refl resolved, cached⟩
  · rename_i missing
    constructor
    · intro other ip present
      rw [Map.getElem?_insert]
      split
      · rename_i here
        rw [here, missing] at present
        cases present
      · exact present
    · rw [Map.getElem?_insert, if_pos rfl]

/-- Asked again the answer is the same, whatever was resolved meanwhile. -/
theorem same_spec (lookUp : Bytes → Option Bytes) (resolved : ExtTreeMap Bytes Bytes)
    (a b : Endpoint) : Extends resolved (same lookUp resolved a b).2 ∧
      ∀ later, Extends (same lookUp resolved a b).2 later →
        (same lookUp resolved a b).1 = sameIn later a b := by
  unfold same
  split
  · rename_i ports
    split
    · rename_i hosts
      refine ⟨.refl resolved, fun later _ => ?_⟩
      rw [sameIn, ports, hosts, beq_self_eq_true, beq_self_eq_true, Bool.true_or, Bool.and_true]
    · rename_i differ
      obtain ⟨first, hostA⟩ := resolve_spec lookUp resolved a.host
      obtain ⟨second, hostB⟩ :=
        resolve_spec lookUp (resolve lookUp resolved a.host).2 b.host
      refine ⟨first.trans second, fun later more => ?_⟩
      rw [sameIn, ports, beq_self_eq_true, beq_eq_false_iff_ne.mpr differ, Bool.false_or,
        Bool.true_and, more _ _ (second _ _ hostA), more _ _ hostB]
      rfl
  · rename_i ports
    refine ⟨.refl resolved, fun later _ => ?_⟩
    rw [sameIn, beq_eq_false_iff_ne.mpr ports, Bool.false_and]

theorem extends_isMember (lookUp : Bytes → Option Bytes) (server : Endpoint)
    (members : List ServerAddress) (resolved : ExtTreeMap Bytes Bytes) :
    Extends resolved (isMember lookUp server members resolved).2 := by
  induction members generalizing resolved with
  | nil => exact .refl resolved
  | cons m members ih =>
    have one := (same_spec lookUp resolved server ⟨m.host, m.port⟩).1
    rw [isMember]
    split
    · exact one
    · exact one.trans (ih _)

theorem extends_followsOurs (theirs : Endpoint) (role : UInt8) (known : Bool) :
    Extends resolved (followsOurs round resolved server theirs role known).2 := by
  unfold followsOurs
  split
  · split
    · exact (same_spec ..).1
    · exact .refl resolved
  · exact .refl resolved

/-- A probe looks names up, and forgets none. -/
theorem extends_probe (round : Round) (resolved : ExtTreeMap Bytes Bytes) (server : Endpoint) :
    Extends resolved (probe round resolved server).2 := by
  unfold probe
  split
  · exact .refl resolved
  · split
    · exact .refl resolved
    · split
      · exact .refl resolved
      · rename_i role known theirs rest _
        have ours : Extends resolved (followsOurs round resolved server theirs role known).2 :=
          extends_followsOurs theirs role known
        dsimp only
        split
        · exact ours
        · split
          · exact ours
          · split <;> exact ours

/-- What `examine` looks up is kept. -/
theorem extends_examine (round : Round) (resolved : ExtTreeMap Bytes Bytes) (server : Endpoint) :
    Extends resolved (examine round resolved server).2 := by
  have members := extends_isMember round.lookUp server round.members resolved
  unfold examine
  dsimp only
  split
  · exact members
  · exact members.trans (extends_probe round _ server)

end Cache

/-! ## What the rounds find -/

abbrev Findings := List (Endpoint × Finding)

/-- The findings of `checkAll`, which do not depend on those before. -/
def survey (me : Endpoint) (round : Round) :
    List Endpoint → ExtTreeMap Bytes Bytes → Findings × ExtTreeMap Bytes Bytes
  | [], resolved => ([], resolved)
  | server :: expected, resolved =>
    let mine := same round.lookUp resolved server me
    if mine.1 then survey me round expected mine.2
    else
      let found := examine round mine.2 server
      let rest := survey me round expected found.2
      ((server, found.1) :: rest.1, rest.2)

def surveys (me : Endpoint) (expected : List Endpoint) :
    ExtTreeMap Bytes Bytes → List Round → List Findings
  | _, [] => []
  | resolved, round :: rounds =>
    let found := survey me round expected resolved
    found.1 :: surveys me expected found.2 rounds

/-- A server that stays in one state does so for the same reason. -/
def Steady (last next : Findings) : Prop :=
  ∀ old ∈ last, ∀ new ∈ next, old.1 = new.1 → old.2.state = new.2.state → old.2 = new.2

instance : DecidableRel Steady :=
  fun last next => inferInstanceAs (Decidable (∀ old ∈ last, ∀ new ∈ next, _))

def noteAll : Findings → Monitor → Monitor × List Report
  | [], m => (m, [])
  | (server, finding) :: found, m =>
    let noted := note m server finding
    let rest := noteAll found noted.1
    (rest.1, ⟨server, finding, noted.2⟩ :: rest.2)

section Survey

variable {me : Endpoint} {round : Round}

/-- What is noted of a server does not depend on the addresses kept. -/
theorem note_resolved (m : Monitor) (resolved : ExtTreeMap Bytes Bytes) (server : Endpoint)
    (finding : Finding) : note { m with resolved } server finding =
      ({ (note m server finding).1 with resolved }, (note m server finding).2) := by
  unfold note
  dsimp only
  split
  · rfl
  · split <;> rfl

theorem resolved_note (m : Monitor) (server : Endpoint) (finding : Finding) :
    (note m server finding).1.resolved = m.resolved := by
  unfold note
  dsimp only
  split
  · rfl
  · split <;> rfl

/-- Nor does what is noted of all of them. -/
theorem noteAll_resolved (found : Findings) (m : Monitor) (resolved : ExtTreeMap Bytes Bytes) :
    noteAll found { m with resolved } =
      ({ (noteAll found m).1 with resolved }, (noteAll found m).2) := by
  induction found generalizing m with
  | nil => rfl
  | cons entry found ih => rw [noteAll, note_resolved, noteAll, ih]

/-- A round first finds, then notes. -/
theorem checkAll_eq (expected : List Endpoint) (m : Monitor) : checkAll me round expected m =
    noteAll (survey me round expected m.resolved).1
      { m with resolved := (survey me round expected m.resolved).2 } := by
  induction expected generalizing m with
  | nil => rfl
  | cons server expected ih =>
    rw [checkAll, survey]
    dsimp only
    split
    · exact ih _
    · generalize examine round (same round.lookUp m.resolved server me).2 server = found
      rw [ih, resolved_note, note_resolved m found.2, noteAll,
        note_resolved m (survey me round expected found.2).2]

/-- Every expected server is looked at, this one apart. -/
theorem survey_spec (me : Endpoint) (round : Round) (expected : List Endpoint)
    (resolved : ExtTreeMap Bytes Bytes) :
    Extends resolved (survey me round expected resolved).2 ∧
      ∀ later, Extends (survey me round expected resolved).2 later →
        (survey me round expected resolved).1.map Prod.fst =
          expected.filter fun server => !sameIn later server me := by
  induction expected generalizing resolved with
  | nil => exact ⟨.refl resolved, fun _ _ => rfl⟩
  | cons server expected ih =>
    obtain ⟨asked, answer⟩ := same_spec round.lookUp resolved server me
    rw [survey]
    dsimp only
    split
    · rename_i mine
      obtain ⟨more, rest⟩ := ih (same round.lookUp resolved server me).2
      refine ⟨asked.trans more, fun later final => ?_⟩
      have skipped : ¬ (!sameIn later server me) = true := by
        rw [← answer later (more.trans final), mine]
        decide
      rw [rest later final, List.filter_cons, if_neg skipped]
    · rename_i other
      have looked := extends_examine round (same round.lookUp resolved server me).2 server
      obtain ⟨more, rest⟩ := ih (examine round (same round.lookUp resolved server me).2 server).2
      refine ⟨(asked.trans looked).trans more, fun later final => ?_⟩
      have kept : (!sameIn later server me) = true := by
        rw [← answer later ((looked.trans more).trans final), Bool.eq_false_iff.mpr other]
        decide
      rw [List.map_cons, rest later final, List.filter_cons, if_pos kept]

end Survey

/-! ## What is kept of them -/

/-- The message of a finding. -/
def due (server : Endpoint) (finding : Finding) : Option Bytes :=
  if finding = .up then none else some (warning server finding)

/-- Two servers have different keys. -/
theorem Endpoint.key_inj {a b : Endpoint} : a.key = b.key ↔ a = b := by
  rw [Endpoint.key, Endpoint.key, hostPort_inj, Endpoint.mk.injEq]

theorem Finding.state_eq_up {f : Finding} : f.state = .up ↔ f = .up := by
  cases f <;> simp only [state, reduceCtorEq]

theorem Finding.state_ne_unknown (f : Finding) : f.state ≠ .unknown := by
  cases f <;> simp only [state, ne_eq, reduceCtorEq, not_false_eq_true]

/-- What follows the name of the server. -/
private def reason : Finding → Bytes
  | .up => []
  | .notRunning => bytes " is not running (or can't be reached)"
  | .malformed => bytes " sent a malformed status reply"
  | .separate =>
    bytes " is running as a separate primary (a network split, or it was started without --join)"
  | .follows primary =>
    bytes " follows a different primary (" ++ (primary.key ++ bytes "): the cluster is split")

/-- The letter at which the reasons differ. -/
private def letter : Finding → Option UInt8
  | .up => none
  | .notRunning => some 0x6E
  | .malformed => some 0x74
  | .separate => some 0x72
  | .follows _ => some 0x6C

private theorem letter_eq (f : Finding) : (reason f)[4]? = letter f := by
  cases f with
  | up => rfl
  | notRunning => decide +kernel
  | malformed => decide +kernel
  | separate => decide +kernel
  | follows primary =>
    rw [reason, letter, List.getElem?_append_left (by decide +kernel)]
    decide +kernel

/-- The fifth letter tells the reasons apart. -/
private theorem reason_inj {f g : Finding} (equal : reason f = reason g) : f = g := by
  have letters : letter f = letter g := by rw [← letter_eq, ← letter_eq, equal]
  cases f with
  | follows primary =>
    cases g with
    | follows other =>
      have keys : primary.key = other.key :=
        List.append_cancel_right (List.append_cancel_left equal)
      rw [Endpoint.key_inj.mp keys]
    | _ => exact absurd letters (by simp only [letter]; decide)
  | _ =>
    cases g with
    | follows other => exact absurd letters (by simp only [letter]; decide)
    | _ => first | rfl | exact absurd letters (by decide)

/-- What is said of a server that is not up: the server, then the reason. -/
theorem detail_eq {server : Endpoint} {f : Finding} (wrong : f ≠ .up) :
    f.detail server = bytes "expected server " ++ (server.key ++ reason f) := by
  cases f with
  | up => exact absurd rfl wrong
  | _ => rfl

/-- A text tells what was found. -/
theorem due_inj {server : Endpoint} {f g : Finding} (equal : due server f = due server g) :
    f = g := by
  unfold due at equal
  split at equal
  · rename_i up
    split at equal
    · rename_i up'
      rw [up, up']
    · cases equal
  · rename_i wrong
    split at equal
    · cases equal
    · rename_i wrong'
      have details := List.append_cancel_left (Option.some.inj equal)
      rw [detail_eq wrong, detail_eq wrong'] at details
      exact reason_inj (List.append_cancel_left (List.append_cancel_left details))

/-- The message of a server after a finding, and what is notified. -/
def message (previous : Option Status) (old : Option Bytes) (server : Endpoint)
    (finding : Finding) : Option Bytes :=
  if finding.state = previous.getD .unknown then old else due server finding

def change (previous : Option Status) (server : Endpoint) (finding : Finding) : Option Bytes :=
  if finding.state = previous.getD .unknown then none
  else if finding.state = .up then
    if previous.getD .unknown = .unknown then none
    else some (bytes "expected server " ++ (server.key ++ bytes " is back in the cluster"))
  else some (warning server finding)

section Notes

variable {m : Monitor} {server : Endpoint} {finding : Finding} {found : Findings} {key : Bytes}

/-- The state of the server looked at is noted, and no other. -/
theorem note_states : (note m server finding).1.states[key]? =
    if key = server.key then some finding.state else m.states[key]? := by
  have states : (note m server finding).1.states = m.states.insert server.key finding.state := by
    unfold note
    dsimp only
    split
    · rfl
    · split <;> rfl
  rw [states, Map.getElem?_insert]

/-- The message about it is set, removed or left as it was. -/
theorem note_messages : (note m server finding).1.messages[key]? =
    if key = server.key then message m.states[server.key]? m.messages[server.key]? server finding
    else m.messages[key]? := by
  unfold note message
  dsimp only
  split
  · split
    · rename_i here
      rw [here]
    · rfl
  · split
    · rename_i up
      rw [Map.getElem?_erase, due, if_pos (Finding.state_eq_up.mp up)]
    · rename_i wrong
      rw [Map.getElem?_insert, due, if_neg (mt Finding.state_eq_up.mpr wrong)]

/-- What `check` notifies of it is the change of its state. -/
theorem note_change : (note m server finding).2 = change m.states[server.key]? server finding := by
  unfold note change
  dsimp only
  split
  · rfl
  · split <;> rfl

/-- A round leaves alone the servers it does not look at. -/
theorem noteAll_away (away : ∀ entry ∈ found, key ≠ entry.1.key) :
    (noteAll found m).1.states[key]? = m.states[key]? ∧
      (noteAll found m).1.messages[key]? = m.messages[key]? := by
  induction found generalizing m with
  | nil => exact ⟨rfl, rfl⟩
  | cons entry found ih =>
    obtain ⟨server, finding⟩ := entry
    have first : key ≠ server.key := away _ List.mem_cons_self
    obtain ⟨states, messages⟩ := ih (m := (note m server finding).1)
      fun entry mem => away entry (List.mem_cons_of_mem _ mem)
    rw [note_states, if_neg first] at states
    rw [note_messages, if_neg first] at messages
    exact ⟨states, messages⟩

theorem key_ne_of_not_mem (fresh : server ∉ found.map Prod.fst) :
    ∀ entry ∈ found, server.key ≠ entry.1.key := by
  intro entry mem same
  exact fresh (Endpoint.key_inj.mp same ▸ List.mem_map_of_mem mem)

/-- Each server it looks at has its own entry. -/
theorem noteAll_spec (distinct : (found.map Prod.fst).Nodup) (mem : (server, finding) ∈ found) :
    (noteAll found m).1.states[server.key]? = some finding.state ∧
      (noteAll found m).1.messages[server.key]? =
        message m.states[server.key]? m.messages[server.key]? server finding := by
  induction found generalizing m with
  | nil => cases mem
  | cons entry found ih =>
    obtain ⟨first, result⟩ := entry
    obtain ⟨fresh, distinct⟩ := List.nodup_cons.mp distinct
    rw [noteAll]
    rcases List.mem_cons.mp mem with here | later
    · cases here
      obtain ⟨states, messages⟩ := noteAll_away (m := (note m server finding).1)
        (key_ne_of_not_mem fresh)
      rw [note_states, if_pos rfl] at states
      rw [note_messages, if_pos rfl] at messages
      exact ⟨states, messages⟩
    · obtain ⟨states, messages⟩ := ih (m := (note m first result).1) distinct later
      have apart : server.key ≠ first.key :=
        (key_ne_of_not_mem fresh _ later).symm
      rw [note_states, if_neg apart, note_messages, if_neg apart] at messages
      exact ⟨states, messages⟩

/-- A round reports what was found of each server, and whether it is a change. -/
theorem noteAll_reports (distinct : (found.map Prod.fst).Nodup) : (noteAll found m).2 =
    found.map fun entry =>
      ⟨entry.1, entry.2, change m.states[entry.1.key]? entry.1 entry.2⟩ := by
  induction found generalizing m with
  | nil => rfl
  | cons entry found ih =>
    obtain ⟨first, result⟩ := entry
    obtain ⟨fresh, distinct⟩ := List.nodup_cons.mp distinct
    rw [noteAll, List.map_cons, note_change, ih distinct]
    refine congrArg _ (List.map_congr_left fun entry mem => ?_)
    have apart : entry.1.key ≠ first.key := (key_ne_of_not_mem fresh entry mem).symm
    rw [note_states, if_neg apart]

end Notes

/-! ## The rounds -/

structure Step where
  before : Monitor
  after : Monitor
  reports : List Report
  sent : List Bytes

/-- The rounds of `loop`, with what each is told. -/
def run (me : Endpoint) (expected : List Endpoint) : Monitor → List Round → List Step
  | _, [] => []
  | m, round :: rounds =>
    let checked := checkAll me round expected m
    ⟨m, checked.1, checked.2, notices expected checked.2⟩ :: run me expected checked.1 rounds

/-- After a round there is a message for each server not up, with the reason found in this
round, and a server is notified of when its message comes, changes or goes. -/
structure Current (me : Endpoint) (expected : List Endpoint) (step : Step) : Prop where
  servers : step.reports.map Report.server =
    expected.filter fun server => !sameIn step.after.resolved server me
  messages : ∀ key text, step.after.messages[key]? = some text ↔
    ∃ r ∈ step.reports, r.finding ≠ .up ∧ r.server.key = key ∧ warning r.server r.finding = text
  lines : problems step.after =
    (bytes "\n").intercalate (step.after.messages.toList.map Prod.snd)
  changes : ∀ r ∈ step.reports, r.change ≠ none ↔
    step.before.messages[r.server.key]? ≠ step.after.messages[r.server.key]?
  sent : step.sent = step.reports.filterMap Report.change ++ summary expected step.reports

/-- The maps hold what the last round found. -/
structure Kept (last : Findings) (m : Monitor) : Prop where
  states : ∀ server f, (server, f) ∈ last → m.states[server.key]? = some f.state
  messages : ∀ server f, (server, f) ∈ last → m.messages[server.key]? = due server f
  others : ∀ key : Bytes, (∀ entry ∈ last, key ≠ entry.1.key) →
    m.states[key]? = none ∧ m.messages[key]? = none

theorem kept_init : Kept [] .init where
  states := fun _ _ mem => nomatch mem
  messages := fun _ _ mem => nomatch mem
  others := fun _ _ => ⟨ExtTreeMap.getElem?_empty, ExtTreeMap.getElem?_empty⟩

theorem warning_ne_nil (server : Endpoint) (finding : Finding) : warning server finding ≠ [] := by
  intro empty
  exact absurd (List.append_eq_nil_iff.mp empty).1 (by decide +kernel)

theorem due_eq_some {server : Endpoint} {f : Finding} {text : Bytes} :
    due server f = some text ↔ f ≠ .up ∧ warning server f = text := by
  rw [due, Option.ite_none_left_eq_some, Option.some.injEq]

/-- The messages there are, by what was found last. -/
theorem Kept.messages_iff {last : Findings} {m : Monitor} (kept : Kept last m) {key text : Bytes} :
    m.messages[key]? = some text ↔
      ∃ entry ∈ last, entry.2 ≠ .up ∧ entry.1.key = key ∧ warning entry.1 entry.2 = text := by
  constructor
  · intro present
    by_cases seen : ∃ entry ∈ last, key = entry.1.key
    · obtain ⟨entry, mem, rfl⟩ := seen
      rw [kept.messages entry.1 entry.2 mem] at present
      obtain ⟨wrong, same⟩ := due_eq_some.mp present
      exact ⟨entry, mem, wrong, rfl, same⟩
    · have absent := (kept.others key fun entry mem same => seen ⟨entry, mem, same⟩).2
      rw [absent] at present
      cases present
  · rintro ⟨entry, mem, wrong, rfl, same⟩
    rw [kept.messages entry.1 entry.2 mem]
    exact due_eq_some.mpr ⟨wrong, same⟩

theorem intercalate_append (sep front first : Bytes) (rest : List Bytes) :
    sep.intercalate ((front ++ first) :: rest) = front ++ sep.intercalate (first :: rest) := by
  cases rest with
  | nil => rw [List.intercalate_singleton, List.intercalate_singleton]
  | cons next rest =>
    rw [List.intercalate_cons_cons, List.intercalate_cons_cons, List.append_assoc,
      List.append_assoc, List.append_assoc]

/-- `problems` puts the messages on lines of their own. -/
theorem foldl_lines (first : Bytes) (some : first ≠ []) (entries : List (Bytes × Bytes)) :
    entries.foldl (fun text entry =>
        text ++ ((if text.isEmpty then [] else bytes "\n") ++ entry.2)) first =
      (bytes "\n").intercalate (first :: entries.map Prod.snd) := by
  induction entries generalizing first with
  | nil => exact List.intercalate_singleton.symm
  | cons entry entries ih =>
    have filled : ¬ first.isEmpty = true := mt List.isEmpty_iff.mp some
    rw [List.foldl_cons, ih _ (List.append_ne_nil_of_left_ne_nil some _), if_neg filled,
      List.map_cons, List.intercalate_cons_cons, ← List.append_assoc, intercalate_append]

/-- The messages are told one a line; none is empty, so no line is. -/
theorem Kept.problems_eq {last : Findings} {m : Monitor} (kept : Kept last m) :
    problems m = (bytes "\n").intercalate (m.messages.toList.map Prod.snd) := by
  have filled : ∀ entry ∈ m.messages.toList, entry.2 ≠ [] := by
    rintro ⟨key, text⟩ mem
    obtain ⟨entry, -, -, -, same⟩ := kept.messages_iff.mp (Map.mem_toList_iff.mp mem)
    exact same ▸ warning_ne_nil entry.1 entry.2
  unfold problems
  cases listed : m.messages.toList with
  | nil => rfl
  | cons entry entries =>
    rw [listed] at filled
    exact foldl_lines entry.2 (filled entry List.mem_cons_self) entries

section Round

variable {me : Endpoint} {expected : List Endpoint} {round : Round} {last found : Findings}
  {m : Monitor}

/-- The entry of a server, by what the round before found of it, if that one looked. -/
theorem Kept.before (kept : Kept last m) {server : Endpoint}
    (seen : last = [] ∨ server ∈ last.map Prod.fst) :
    (last = [] ∧ m.states[server.key]? = none ∧ m.messages[server.key]? = none) ∨
      ∃ old, (server, old) ∈ last ∧ m.states[server.key]? = some old.state ∧
        m.messages[server.key]? = due server old := by
  rcases seen with rfl | mem
  · exact .inl ⟨rfl, kept.others _ fun _ mem => nomatch mem⟩
  · obtain ⟨⟨server, old⟩, there, rfl⟩ := List.mem_map.mp mem
    exact .inr ⟨old, there, kept.states server old there, kept.messages server old there⟩

theorem looked_at (seen : last = [] ∨ last.map Prod.fst = found.map Prod.fst)
    {entry : Endpoint × Finding} (mem : entry ∈ found) :
    last = [] ∨ entry.1 ∈ last.map Prod.fst := by
  rcases seen with empty | servers
  · exact .inl empty
  · exact .inr (servers ▸ List.mem_map_of_mem mem)

/-- A round of steady findings leaves a message for each server not up. -/
theorem kept_noteAll (kept : Kept last m) (distinct : (found.map Prod.fst).Nodup)
    (seen : last = [] ∨ last.map Prod.fst = found.map Prod.fst) (steady : Steady last found) :
    Kept found (noteAll found m).1 where
  states := fun server f mem => (noteAll_spec distinct mem).1
  messages := by
    intro server f mem
    rw [(noteAll_spec distinct mem).2, message]
    rcases kept.before (looked_at seen mem) with ⟨-, state, -⟩ | ⟨old, before, state, text⟩
    · rw [state, Option.getD_none, if_neg f.state_ne_unknown]
    · rw [state, Option.getD_some, text]
      split
      · rename_i same
        have reason : old = f := steady (server, old) before (server, f) mem rfl same.symm
        rw [reason]
      · rfl
  others := by
    intro key away
    obtain ⟨states, messages⟩ := noteAll_away (m := m) away
    rw [states, messages]
    refine kept.others key fun entry mem same => ?_
    rcases seen with rfl | servers
    · cases mem
    · have there : entry.1 ∈ found.map Prod.fst := servers ▸ List.mem_map_of_mem mem
      obtain ⟨entry', mem', same'⟩ := List.mem_map.mp there
      exact away entry' mem' (same.trans (congrArg Endpoint.key same'.symm))

/-- A server is notified of when its message is another than before. -/
theorem Kept.change_iff (kept : Kept last m) {server : Endpoint} {f : Finding}
    (seen : last = [] ∨ server ∈ last.map Prod.fst)
    (steady : ∀ old, (server, old) ∈ last → old.state = f.state → old = f) :
    change m.states[server.key]? server f ≠ none ↔ m.messages[server.key]? ≠ due server f := by
  rcases kept.before seen with ⟨-, state, text⟩ | ⟨old, before, state, text⟩
  · rw [state, text, change, Option.getD_none, if_neg f.state_ne_unknown, if_pos rfl, due]
    by_cases up : f = .up
    · rw [if_pos (Finding.state_eq_up.mpr up), if_pos up]
    · rw [if_neg (mt Finding.state_eq_up.mp up), if_neg up]
      exact iff_of_true (Option.some_ne_none _) (Option.some_ne_none _).symm
  · rw [state, text, change, Option.getD_some]
    by_cases same : f.state = old.state
    · rw [if_pos same, steady old before same.symm]
      exact iff_of_false (fun some => some rfl) (fun differ => differ rfl)
    · rw [if_neg same]
      refine iff_of_true ?_ fun equal => same (congrArg Finding.state (due_inj equal)).symm
      split
      · rw [if_neg old.state_ne_unknown]
        exact Option.some_ne_none _
      · exact Option.some_ne_none _

/-- No server is looked at twice. -/
theorem survey_distinct (me : Endpoint) (round : Round) (distinct : expected.Nodup)
    (resolved : ExtTreeMap Bytes Bytes) :
    ((survey me round expected resolved).1.map Prod.fst).Nodup := by
  rw [(survey_spec me round expected resolved).2 _ (.refl _)]
  exact distinct.filter _

/-- The addresses and the notes of a round are kept apart. -/
theorem checkAll_split (expected : List Endpoint) (m : Monitor) :
    checkAll me round expected m =
      ({ (noteAll (survey me round expected m.resolved).1 m).1 with
          resolved := (survey me round expected m.resolved).2 },
        (noteAll (survey me round expected m.resolved).1 m).2) := by
  rw [checkAll_eq, noteAll_resolved]

/-- The step of the rounds. -/
theorem Kept.current_iff_steady (kept : Kept last m) (distinct : expected.Nodup)
    (seen : last = [] ∨
      last.map Prod.fst = (survey me round expected m.resolved).1.map Prod.fst) :
    Current me expected ⟨m, (checkAll me round expected m).1, (checkAll me round expected m).2,
        notices expected (checkAll me round expected m).2⟩ ↔
      Steady last (survey me round expected m.resolved).1 := by
  have apart := survey_distinct me round distinct m.resolved
  have servers := (survey_spec me round expected m.resolved).2 _ (.refl _)
  rw [checkAll_split]
  generalize survey me round expected m.resolved = found at seen apart servers ⊢
  have reports := noteAll_reports (m := m) apart
  constructor
  · rintro current ⟨server, old⟩ before ⟨_, f⟩ mem rfl same
    dsimp only at same ⊢
    have spec := (noteAll_spec (m := m) apart mem).2
    rw [kept.states server old before, kept.messages server old before, message,
      Option.getD_some, if_pos same.symm] at spec
    by_cases up : f = .up
    · rw [up] at same ⊢
      exact Finding.state_eq_up.mp same
    · have listed : (noteAll found.1 m).1.messages[server.key]? = some (warning server f) := by
        have told := List.mem_map_of_mem (f := fun entry : Endpoint × Finding =>
          Report.mk entry.1 entry.2 (change m.states[entry.1.key]? entry.1 entry.2)) mem
        exact (current.messages _ _).mpr ⟨_, reports ▸ told, up, rfl, rfl⟩
      rw [spec] at listed
      exact due_inj (listed.trans (due_eq_some.mpr ⟨up, rfl⟩).symm)
  · intro steady
    have after := kept_noteAll kept apart seen steady
    refine ⟨?_, ?_, after.problems_eq, ?_, rfl⟩
    · rw [← servers, reports, List.map_map]
      rfl
    · intro key text
      simp only [reports, List.mem_map, exists_exists_and_eq_and]
      exact after.messages_iff
    · rw [reports, List.forall_mem_map]
      intro entry mem
      rw [after.messages entry.1 entry.2 mem]
      exact kept.change_iff (looked_at seen mem)
        fun old before same => steady (entry.1, old) before entry mem rfl same

end Round

/-- A run of rounds is current as long as the findings are steady. -/
theorem run_current_iff {me : Endpoint} {expected : List Endpoint} (distinct : expected.Nodup)
    (rounds : List Round) {last : Findings} {m : Monitor} (kept : Kept last m)
    (seen : last = [] ∨ ∀ later, Extends m.resolved later →
      last.map Prod.fst = expected.filter fun server => !sameIn later server me) :
    (∀ step ∈ run me expected m rounds, Current me expected step) ↔
      (last :: surveys me expected m.resolved rounds).IsChain Steady := by
  induction rounds generalizing last m with
  | nil => exact iff_of_true (fun _ mem => nomatch mem) (.singleton _)
  | cons round rounds ih =>
    obtain ⟨more, servers⟩ := survey_spec me round expected m.resolved
    have looked : last = [] ∨
        last.map Prod.fst = (survey me round expected m.resolved).1.map Prod.fst :=
      seen.imp_right fun before => (before _ more).trans (servers _ (.refl _)).symm
    rw [run, surveys, List.forall_mem_cons, List.isChain_cons_cons,
      kept.current_iff_steady distinct looked]
    refine and_congr_right fun steady => ?_
    have after := kept_noteAll kept (survey_distinct me round distinct _) looked steady
    rw [checkAll_split]
    exact ih ⟨after.states, after.messages, after.others⟩ (.inr servers)

/-- The messages are current after every round exactly when no server stays in a state
other than up for another reason than in the round before. -/
theorem current_iff (me : Endpoint) (expected : List Endpoint) (rounds : List Round)
    (distinct : expected.Nodup) :
    (∀ step ∈ run me expected .init rounds, Current me expected step) ↔
      (surveys me expected ∅ rounds).IsChain Steady := by
  refine (run_current_iff distinct rounds kept_init (.inl rfl)).trans ?_
  change ([] :: surveys me expected ∅ rounds).IsChain Steady ↔ _
  cases surveys me expected ∅ rounds with
  | nil => exact iff_of_true (.singleton _) .nil
  | cons found others =>
    rw [List.isChain_cons_cons]
    exact and_iff_right fun _ mem => nomatch mem

/-! A server that first does not run, then follows another primary, and then joins; and
one that follows one primary and then another. -/

private def here : Endpoint := ⟨bytes "a", 4000⟩
private def there : Endpoint := ⟨bytes "b", 4001⟩

private def quiet : Round := ⟨[], fun _ => none, fun _ => none, fun _ => none⟩
private def joined : Round := { quiet with members := [⟨2, bytes "b", 4001⟩] }

/-- `there` follows the server of that name at port 4002. -/
private def split (host : UInt8) : Round :=
  { quiet with
    reply := fun _ => some ⟨.status, [1, 1, 0, 0, 0, 3, 0, 1, host, 0x0F, 0xA2]⟩
    primary := fun _ => some ⟨1, bytes "a", 4000⟩ }

theorem joined_after_split : [there].Nodup ∧
    ∀ step ∈ run here [there] .init [quiet, split 0x63, joined], Current here [there] step :=
  ⟨by decide +kernel, (current_iff here [there] [quiet, split 0x63, joined]
    (by decide +kernel)).mpr (by decide +kernel)⟩

/-- The message goes on naming the primary it followed before. -/
theorem stale_primary : ¬ ∀ (me : Endpoint) (expected : List Endpoint) (rounds : List Round),
    expected.Nodup → ∀ step ∈ run me expected .init rounds, Current me expected step := by
  intro always
  have current := always here [there] [split 0x63, split 0x64] (by decide +kernel)
  have steady := (run_current_iff (by decide +kernel) _ kept_init (.inl rfl)).mp current
  exact absurd steady (by decide +kernel)

end SisOp.Health
