import SisOp.Cluster.Ids

/-!
# Primaries, when servers only crash

The cluster of `SisOp.Cluster.Ids` with the rounds of `run_election` call by
call: a call reaches the server at the address whenever one runs there, and is
answered.

Main result: `one_primary`, no two running servers are primaries in every run in
which a server that takes over knew every running server above it when its round
began, and a server that receives its id has it to itself, below those of the
servers it could outrank.
-/

namespace SisOp.Primaries

open Lib Std Function Ids

/-- A round of `run_election`: the members it asks, those it has not asked yet,
and whether one answered. -/
structure Round where
  me : ServerAddress
  asked : List ServerAddress
  todo : List ServerAddress
  higherAlive : Bool

structure State where
  cluster : Ids.State
  round : Address → Option Round

/-- What happens beside the elections, and the calls of a round. -/
inductive Label where
  | cluster (label : Ids.Label)
  | elect (a : Address)
  | ask (a : Address)
  | decide (a : Address)

def init (a : Address) : State := ⟨Ids.init a, fun _ => none⟩

/-- The process that starts or ends. -/
def process? : Ids.Label → Option Address
  | .start a | .crash a => some a
  | _ => none

/-- What only a round does. -/
def ofElection : Ids.Label → Bool
  | .suspect .. | .elect _ | .takeOver _ => true
  | _ => false

namespace State

def setRound (s : State) (a : Address) (round : Option Round) : State :=
  { s with round := update s.round a round }

end State

def step (s : State) : Label → Option State
  | .cluster label =>
    if ofElection label then none
    else (Ids.step s.cluster label).map fun cluster =>
      ⟨cluster, fun a => if process? label = some a then none else s.round a⟩
  | .elect a =>
    match s.cluster.server a, s.round a with
    | some server, none => (Ids.step s.cluster (.elect a)).map fun cluster =>
      let higher := server.cluster.startRound.2
      ⟨cluster, update s.round a (some ⟨server.cluster.self, higher, higher, false⟩)⟩
    | _, _ => none
  | .ask a =>
    match s.round a with
    | some ⟨me, asked, member :: todo, higherAlive⟩ =>
      match s.cluster.server (addressOf member) with
      | some _ =>
        some ⟨s.cluster.send a (addressOf member) (.election me),
          update s.round a (some ⟨me, asked, todo, true⟩)⟩
      | none => some (s.setRound a (some ⟨me, asked, todo, higherAlive⟩))
    | _ => none
  | .decide a =>
    match s.round a with
    | some ⟨_, _, [], false⟩ => (Ids.step s.cluster (.takeOver a)).map fun cluster =>
      ⟨cluster, update s.round a none⟩
    | some ⟨_, _, [], true⟩ => some (s.setRound a none)
    | _ => none

/-- Messages between running servers arrive, and a call fails only when the
other server has crashed. -/
def CrashOnly (s : State) : Label → Prop
  | .cluster (.attached k ok) => ok = false →
      ∀ p member, s.cluster.attaching[k]? = some (p, member) →
      s.cluster.server (addressOf member) = none
  | .cluster (.drop p id) => ∀ server a, s.cluster.server p = some server →
      server.cluster.links[id]? = some a → s.cluster.server a = none
  | _ => True

/-! ## What the servers have to know -/

/-- The server is the primary, or may come out of its round as the primary. -/
def State.Standing (s : State) (a : Address) (server : Server) : Prop :=
  server.cluster.role = .primary ∨
    ∃ r, s.round a = some r ∧ r.higherAlive = false ∧ r.me.id ≠ 0

/-- No other server has the id, and it is below those of the servers that stand. -/
def State.Below (s : State) (a : Address) (id : UInt32) : Prop :=
  ∀ b other, b ≠ a → s.cluster.server b = some other →
    other.cluster.self.id ≠ id ∧ (s.Standing b other → id < other.cluster.self.id)

/-- A round that nobody answered was a server's with an id that knew every running
server above it; an id is received that no other server has, and that is below those
of the servers it could outrank. -/
def Aware (s : State) : Label → Prop
  | .cluster (.receive k) => ∀ e id primaryId, s.cluster.sent[k]? = some e →
      e.content = .joinOk id primaryId → ∀ server, s.cluster.server e.receiver = some server →
        server.cluster.self.id = 0 → s.Below e.receiver id
  | .decide a => ∀ r, s.round a = some r → r.todo = [] → r.higherAlive = false →
      r.me.id ≠ 0 ∧ ∀ b other, s.cluster.server b = some other →
        r.me.id < other.cluster.self.id → ∃ m ∈ r.asked, addressOf m = b
  | _ => True

/-- No two running servers are primaries. -/
def OnePrimary (s : State) : Prop :=
  ∀ a b server other, s.cluster.server a = some server → s.cluster.server b = some other →
    server.cluster.role = .primary → other.cluster.role = .primary → a = b

/-! ## Servers that keep their ids -/

/-- The running servers are among those before, with their ids, and none became
the primary. -/
def Fades (s s' : Ids.State) : Prop :=
  ∀ b server', s'.server b = some server' → ∃ server, s.server b = some server ∧
    server'.cluster.self = server.cluster.self ∧
      (server'.cluster.role = .primary → server.cluster.role = .primary)

section Fades

variable {s s' : Ids.State} {a : Address} {c c' : Cluster Address} {since since' : Nat}

theorem Fades.of_same (same : s'.server = s.server) : Fades s s' := by
  intro b server' running
  rw [same] at running
  exact ⟨server', running, rfl, id⟩

theorem fades_put (running : s.server a = some ⟨c, since⟩) (self : c'.self = c.self)
    (role : c'.role = .primary → c.role = .primary)
    (same : s'.server = (s.put a ⟨c', since'⟩).server) : Fades s s' := by
  intro b server' found
  rcases put_cases same found with ⟨rfl, rfl⟩ | ⟨-, was⟩
  · exact ⟨_, running, self, role⟩
  · exact ⟨server', was, rfl, id⟩

theorem stays_put (b : Address) {server : Server} (running : s.server b ≠ none) :
    (s.put a server).server b ≠ none := by
  dsimp only [State.put]
  by_cases here : b = a
  · rw [here, update_self]
    nofun
  · rw [update_of_ne here]
    exact running

/-- Nobody receives its id. -/
def Unnamed (s : Ids.State) (label : Ids.Label) : Prop :=
  ∀ k sender receiver id primaryId server, label = .receive k →
    s.sent[k]? = some ⟨sender, receiver, .joinOk id primaryId⟩ →
      s.server receiver = some server → server.cluster.self.id ≠ 0

/-- Only a start, a `JoinOk` and a takeover do more. -/
theorem fades_step {label : Ids.Label} (stepped : Ids.step s label = some s')
    (started : ∀ a, label ≠ .start a) (unnamed : Unnamed s label)
    (taken : ∀ a, label ≠ .takeOver a) :
    Fades s s' ∧ ∀ b, process? label ≠ some b → s.server b ≠ none → s'.server b ≠ none := by
  have kind := Stepped.of_step stepped
  cases kind with
  | start => exact absurd rfl (started _)
  | takeOver => exact absurd rfl (taken _)
  | @refused p a c since running leads out =>
    obtain ⟨lowest, same⟩ := c.assignId_keeps a.1 a.2
    exact ⟨fades_put running (by rw [same]) (fun _ => leads) rfl, fun b _ => stays_put b⟩
  | @chosen p a c since running leads left =>
    obtain ⟨lowest, same⟩ := c.assignId_keeps a.1 a.2
    exact ⟨fades_put running (by rw [same]) (fun _ => leads) rfl, fun b _ => stays_put b⟩
  | join offered running =>
    refine ⟨fades_put running ?_ ?_ rfl, fun b _ => stays_put b⟩
    · rfl
    · exact id
  | attach | announce | inform | suspect | unheard => exact ⟨.of_same rfl, fun _ _ => id⟩
  | @attached k ok p member c since calling running =>
    refine ⟨fades_put running ?_ ?_ rfl, fun b _ => stays_put b⟩
    all_goals cases ok
    all_goals first | rfl | exact id
  | @perform k a task c since waiting running =>
    obtain ⟨self, role⟩ := perform_keeps c task
    exact ⟨fades_put running self role rfl, fun b _ => stays_put b⟩
  | @heard k sender receiver content c since waiting running =>
    have self : (handle c sender content).1.self = c.self := by
      cases content with
      | joinOk id primaryId =>
        exact (handle_keeps c sender _).1 (unnamed k sender receiver id primaryId _ rfl waiting
          running)
      | attach | membership | coordinator | election => rfl
    exact ⟨fades_put running self (handle_keeps c sender content).2 rfl, fun b _ => stays_put b⟩
  | drop running linked =>
    refine ⟨fades_put running ?_ ?_ rfl, fun b _ => stays_put b⟩
    · rfl
    · exact id
  | crash =>
    refine ⟨fun b server' running => ?_, fun b other running => ?_⟩
    · exact ⟨server', (crash_cases running).2, rfl, id⟩
    · dsimp only
      rw [update_of_ne fun here => other (congrArg some here.symm)]
      exact running
  | elect running backup =>
    refine ⟨fades_put running ?_ ?_ rfl, fun b _ => stays_put b⟩
    · rfl
    · exact id

end Fades

/-! ## The invariant -/

/-- The primary has the highest id of the running servers, ids differ, and a round
nobody answered has yet to ask every running server above it that it knew. -/
structure Inv (s : State) : Prop where
  named : ∀ a server, s.cluster.server a = some server → server.cluster.role = .primary →
    server.cluster.self.id ≠ 0
  top : ∀ a b server other, s.cluster.server a = some server → s.cluster.server b = some other →
    server.cluster.role = .primary → other.cluster.self.id ≤ server.cluster.self.id
  unique : ∀ a b server other, s.cluster.server a = some server → s.cluster.server b = some other →
    server.cluster.self.id = other.cluster.self.id → server.cluster.self.id ≠ 0 → a = b
  running : ∀ a r, s.round a = some r → ∃ server, s.cluster.server a = some server ∧
    (r.me.id ≠ 0 → server.cluster.self = r.me)
  above : ∀ a r b other, s.round a = some r → r.higherAlive = false → r.me.id ≠ 0 →
    s.cluster.server b = some other → r.me.id < other.cluster.self.id →
      (∃ m ∈ r.asked, addressOf m = b) → ∃ m ∈ r.todo, addressOf m = b

section Steps

variable {s s' : State} {a : Address}

theorem Inv.fade (inv : Inv s) {cluster : Ids.State} {round : Address → Option Round}
    (fades : Fades s.cluster cluster)
    (rounds : ∀ a r, round a = some r → s.round a = some r ∧ cluster.server a ≠ none) :
    Inv ⟨cluster, round⟩ where
  named a server found role := by
    obtain ⟨old, was, self, ranked⟩ := fades a server found
    rw [self]
    exact inv.named a old was (ranked role)
  top a b server other found found' role := by
    obtain ⟨old, was, self, ranked⟩ := fades a server found
    obtain ⟨old', was', self', -⟩ := fades b other found'
    rw [self, self']
    exact inv.top a b old old' was was' (ranked role)
  unique a b server other found found' same nonzero := by
    obtain ⟨old, was, self, -⟩ := fades a server found
    obtain ⟨old', was', self', -⟩ := fades b other found'
    rw [self, self'] at same
    rw [self] at nonzero
    exact inv.unique a b old old' was was' same nonzero
  running a r now := by
    obtain ⟨before, stays⟩ := rounds a r now
    obtain ⟨server, found⟩ := Option.ne_none_iff_exists'.mp stays
    obtain ⟨old, was, self, -⟩ := fades a server found
    obtain ⟨old', was', me⟩ := inv.running a r before
    cases was.symm.trans was'
    exact ⟨server, found, fun nonzero => self.trans (me nonzero)⟩
  above a r b other now alone nonzero found higher := by
    obtain ⟨old, was, self, -⟩ := fades b other found
    rw [self] at higher
    exact inv.above a r b old (rounds a r now).1 alone nonzero was higher

/-- A server starts, or gets an id below those it could outrank. -/
theorem Inv.adopt (inv : Inv s) {server : Server} {round : Address → Option Round}
    (backup : server.cluster.role ≠ .primary)
    (apart : ∀ b other, b ≠ a → s.cluster.server b = some other →
      server.cluster.self.id = 0 ∨ other.cluster.self.id ≠ server.cluster.self.id)
    (below : ∀ b other, b ≠ a → s.cluster.server b = some other → s.Standing b other →
      server.cluster.self.id ≤ other.cluster.self.id)
    (rounds : ∀ b r, round b = some r → s.round b = some r ∧ (b = a → r.me.id = 0))
    {cluster : Ids.State} (same : cluster.server = (s.cluster.put a server).server) :
    Inv ⟨cluster, round⟩ := by
  constructor
  case named =>
    intro b other running role
    rcases put_cases same running with ⟨-, rfl⟩ | ⟨-, was⟩
    · exact absurd role backup
    · exact inv.named b other was role
  case top =>
    intro b c other third running running' role
    rcases put_cases same running with ⟨-, rfl⟩ | ⟨away, was⟩
    · exact absurd role backup
    rcases put_cases same running' with ⟨rfl, rfl⟩ | ⟨-, was'⟩
    · exact below b other away was (.inl role)
    · exact inv.top b c other third was was' role
  case unique =>
    intro b c other third running running' equal nonzero
    rcases put_cases same running with ⟨rfl, rfl⟩ | ⟨away, was⟩
    · rcases put_cases same running' with ⟨rfl, rfl⟩ | ⟨away, was⟩
      · rfl
      · exact ((apart c third away was).elim nonzero fun differ => differ equal.symm).elim
    · rcases put_cases same running' with ⟨rfl, rfl⟩ | ⟨-, was'⟩
      · rcases apart b other away was with zero | differ
        · exact absurd (equal.trans zero) nonzero
        · exact absurd equal differ
      · exact inv.unique b c other third was was' equal nonzero
  case running =>
    intro b r now
    obtain ⟨before, own⟩ := rounds b r now
    by_cases here : b = a
    · subst here
      exact ⟨server, put_self same, fun nonzero => absurd (own rfl) nonzero⟩
    · obtain ⟨other, was, me⟩ := inv.running b r before
      exact ⟨other, (put_of_ne same here).trans was, me⟩
  case above =>
    intro b r c other now alone nonzero running higher knew
    obtain ⟨before, own⟩ := rounds b r now
    rcases put_cases same running with ⟨rfl, rfl⟩ | ⟨-, was⟩
    · by_cases here : b = c
      · exact absurd (own here) nonzero
      · obtain ⟨old, was, me⟩ := inv.running b r before
        have under := below b old here was (.inr ⟨r, before, alone, nonzero⟩)
        rw [me nonzero] at under
        exact absurd higher (UInt32.not_lt.mpr under)
    · exact inv.above b r c other before alone nonzero was higher knew

/-- A server receives an id nobody else has, below those it could outrank. -/
theorem Inv.join {k : Nat} {sender receiver : Address} {id primaryId : UInt32}
    {c : Cluster Address} {since : Nat} (inv : Inv s)
    (running : s.cluster.server receiver = some ⟨c, since⟩) (unnamed : c.self.id = 0)
    (below : s.Below receiver id) :
    Inv ⟨({ s.cluster with sent := s.cluster.sent.eraseIdx k }.put receiver
      ⟨c.join id primaryId sender.1 sender.2, since⟩).leave receiver [], s.round⟩ := by
  have backup : (c.join id primaryId sender.1 sender.2).role ≠ .primary := nofun
  refine inv.adopt backup ?_ ?_ ?_ rfl
  · exact fun b other away was => .inr (below b other away was).1
  · exact fun b other away was standing => UInt32.le_of_lt ((below b other away was).2 standing)
  · intro b r now
    refine ⟨now, ?_⟩
    rintro rfl
    by_contra nonzero
    obtain ⟨server, was, me⟩ := inv.running _ r now
    cases running.symm.trans was
    rw [me nonzero] at unnamed
    exact nonzero unnamed

theorem Inv.setRound (inv : Inv s) {r : Round}
    (running : ∃ server, s.cluster.server a = some server ∧
      (r.me.id ≠ 0 → server.cluster.self = r.me))
    (above : r.higherAlive = false → ∀ b, (∃ other, s.cluster.server b = some other ∧
      r.me.id < other.cluster.self.id) → (∃ m ∈ r.asked, addressOf m = b) →
        r.me.id ≠ 0 → ∃ m ∈ r.todo, addressOf m = b) :
    Inv (s.setRound a (some r)) where
  named := inv.named
  top := inv.top
  unique := inv.unique
  running b r' now := by
    dsimp only [State.setRound] at now
    rcases update_cases now with ⟨rfl, ⟨⟩⟩ | ⟨-, was⟩
    · exact running
    · exact inv.running b r' was
  above b r' c other now alone nonzero found higher knew := by
    dsimp only [State.setRound] at now
    rcases update_cases now with ⟨rfl, ⟨⟩⟩ | ⟨-, was⟩
    · exact above alone c ⟨other, found, higher⟩ knew nonzero
    · exact inv.above b r' c other was alone nonzero found higher knew

theorem Inv.endRound (inv : Inv s) : Inv (s.setRound a none) := by
  refine inv.fade (.of_same rfl) fun b r now => ?_
  rcases update_cases now with ⟨-, ⟨⟩⟩ | ⟨-, was⟩
  obtain ⟨server, found, -⟩ := inv.running b r was
  exact ⟨was, by rw [found]; nofun⟩

/-- A round starts, on a server that is in none. -/
theorem Inv.elect (inv : Inv s) {server : Server} (found : s.cluster.server a = some server)
    {cluster : Ids.State} (moved : Ids.step s.cluster (.elect a) = some cluster)
    (higher : List ServerAddress) :
    Inv ⟨cluster, update s.round a (some ⟨server.cluster.self, higher, higher, false⟩)⟩ := by
  obtain ⟨fades, stays⟩ := fades_step moved nofun nofun nofun
  have within : Inv ⟨cluster, s.round⟩ := inv.fade fades fun b r now => by
    obtain ⟨other, was, -⟩ := inv.running b r now
    exact ⟨now, stays b nofun (by rw [was]; nofun)⟩
  obtain ⟨server', found'⟩ := Option.ne_none_iff_exists'.mp (stays a nofun (by rw [found]; nofun))
  obtain ⟨old, was, self, -⟩ := fades a server' found'
  cases found.symm.trans was
  exact within.setRound ⟨server', found', fun _ => self⟩ fun _ _ _ knew _ => knew

/-- A member is asked. -/
theorem Inv.ask (inv : Inv s) {me member : ServerAddress} {asked todo : List ServerAddress}
    {higherAlive : Bool} (now : s.round a = some ⟨me, asked, member :: todo, higherAlive⟩)
    (absent : s.cluster.server (addressOf member) = none) :
    Inv (s.setRound a (some ⟨me, asked, todo, higherAlive⟩)) := by
  have me' := inv.running a _ now
  refine inv.setRound me' fun alone b running knew nonzero => ?_
  obtain ⟨other, found, higher⟩ := running
  obtain ⟨m, mem, here⟩ := inv.above a _ b other now alone nonzero found higher knew
  rcases List.mem_cons.mp mem with rfl | mem
  · rw [here, found] at absent
    cases absent
  · exact ⟨m, mem, here⟩

/-- The server that takes over is above all the others. -/
theorem Inv.takeOver (inv : Inv s) {me : ServerAddress} {asked : List ServerAddress}
    (now : s.round a = some ⟨me, asked, [], false⟩) (aware : Aware s (.decide a))
    {cluster : Ids.State} (moved : Ids.step s.cluster (.takeOver a) = some cluster) :
    Inv ⟨cluster, update s.round a none⟩ := by
  obtain ⟨nonzero, knew⟩ := aware _ now rfl rfl
  obtain ⟨⟨c, since⟩, running, self⟩ := inv.running a _ now
  have highest : ∀ b other, s.cluster.server b = some other →
      other.cluster.self.id ≤ me.id := by
    intro b other found
    by_contra above
    have higher := UInt32.not_le.mp above
    obtain ⟨m, mem, -⟩ := inv.above a _ b other now rfl nonzero found higher
      (knew b other found higher)
    cases mem
  cases Stepped.of_step moved with
  | takeOver running' =>
  cases running.symm.trans running'
  have found : ∀ b server, (s.cluster.put a ⟨c.becomePrimary.1, s.cluster.grants.length⟩).server b =
      some server → ∃ old, s.cluster.server b = some old ∧
        server.cluster.self = old.cluster.self ∧
          (b = a ∨ server.cluster.role = .primary → b = a ∨ old.cluster.role = .primary) := by
    intro b server there
    rcases put_cases rfl there with ⟨rfl, rfl⟩ | ⟨-, was⟩
    · exact ⟨_, running, rfl, fun _ => .inl rfl⟩
    · exact ⟨server, was, rfl, id⟩
  have mine : ∀ old, s.cluster.server a = some old → old.cluster.self.id = me.id := by
    intro old was
    cases running.symm.trans was
    rw [self nonzero]
  constructor
  case named =>
    intro b server there role
    obtain ⟨old, was, same, leads⟩ := found b server there
    rw [same]
    rcases leads (.inr role) with rfl | led
    · rw [mine old was]
      exact nonzero
    · exact inv.named b old was led
  case top =>
    intro b d server other there there' role
    obtain ⟨old, was, same, leads⟩ := found b server there
    obtain ⟨old', was', same', -⟩ := found d other there'
    rw [same, same']
    rcases leads (.inr role) with rfl | led
    · rw [mine old was]
      exact highest d old' was'
    · exact inv.top b d old old' was was' led
  case unique =>
    intro b d server other there there' equal named
    obtain ⟨old, was, same, -⟩ := found b server there
    obtain ⟨old', was', same', -⟩ := found d other there'
    rw [same, same'] at equal
    rw [same] at named
    exact inv.unique b d old old' was was' equal named
  case running =>
    intro b r here
    rcases update_cases here with ⟨-, ⟨⟩⟩ | ⟨away, was⟩
    obtain ⟨server, there, same⟩ := inv.running b r was
    exact ⟨server, (put_of_ne rfl away).trans there, same⟩
  case above =>
    intro b r d other here alone named there higher asked'
    obtain ⟨old, was, same, -⟩ := found d other there
    rw [same] at higher
    rcases update_cases here with ⟨-, ⟨⟩⟩ | ⟨-, now'⟩
    exact inv.above b r d old now' alone named was higher asked'

theorem Inv.step {label : Label} (inv : Inv s) (aware : Aware s label)
    (stepped : step s label = some s') : Inv s' := by
  cases label with
  | cluster label =>
    rw [Primaries.step] at stepped
    split at stepped
    · cases stepped
    rename_i beside
    obtain ⟨cluster, moved, rfl⟩ := Option.map_eq_some_iff.mp stepped
    have fade : (∀ a, label ≠ .start a) → Unnamed s.cluster label →
        (∀ a, label ≠ .takeOver a) →
        Inv ⟨cluster, fun a => if process? label = some a then none else s.round a⟩ := by
      intro started unnamed taken
      obtain ⟨fades, stays⟩ := fades_step moved started unnamed taken
      refine inv.fade fades fun a r now => ?_
      split at now
      · cases now
      rename_i other
      obtain ⟨server, found, -⟩ := inv.running a r now
      exact ⟨now, stays a other (by rw [found]; nofun)⟩
    cases label with
    | start a =>
      cases Stepped.of_step moved with
      | start absent =>
      have joining : (Cluster.init a.1 a.2 : Cluster Address).role ≠ .primary := by
        rintro ⟨⟩
      refine inv.adopt joining (fun _ _ _ _ => .inl rfl) (fun _ _ _ _ _ => UInt32.zero_le) ?_ rfl
      intro b r now
      by_cases here : some a = some b
      · rw [process?, if_pos here] at now
        cases now
      · rw [process?, if_neg here] at now
        exact ⟨now, fun same => absurd (congrArg some same.symm) here⟩
    | receive k =>
      by_cases quiet : Unnamed s.cluster (.receive k)
      · refine fade ?_ quiet ?_
        · rintro a ⟨⟩
        · rintro a ⟨⟩
      -- the server receives its id
      simp only [Unnamed, not_forall, Classical.not_not] at quiet
      obtain ⟨_, sender, receiver, id, primaryId, ⟨c, since⟩, ⟨⟩, waiting, running, unnamed⟩ :=
        quiet
      have below := aware _ id primaryId waiting rfl _ running unnamed
      cases Stepped.of_step moved with
      | unheard waits absent =>
        cases waiting.symm.trans waits
        cases running.symm.trans absent
      | heard waits found =>
        cases waiting.symm.trans waits
        cases running.symm.trans found
        rw [handle, if_pos unnamed]
        exact inv.join running unnamed below
    | takeOver a => exact absurd rfl beside
    | choose | join | attach | attached | perform | announce | inform | suspect | drop | crash |
        elect =>
      refine fade ?_ ?_ ?_
      · rintro a ⟨⟩
      · rintro k sender receiver id primaryId server ⟨⟩
      · rintro a ⟨⟩
  | elect a =>
    rw [Primaries.step] at stepped
    split at stepped
    swap
    · cases stepped
    rename_i server found idle
    obtain ⟨cluster, moved, rfl⟩ := Option.map_eq_some_iff.mp stepped
    exact inv.elect found moved _
  | ask a =>
    rw [Primaries.step] at stepped
    split at stepped
    swap
    · cases stepped
    rename_i me asked member todo higherAlive now
    split at stepped <;> cases stepped
    · have sent : Inv ⟨s.cluster.send a (addressOf member) (.election me), s.round⟩ :=
        inv.fade (.of_same rfl) fun b r now => by
          obtain ⟨server, found, -⟩ := inv.running b r now
          refine ⟨now, ?_⟩
          change s.cluster.server b ≠ none
          rw [found]
          nofun
      have me' := sent.running a _ now
      exact sent.setRound me' nofun
    · rename_i absent
      exact inv.ask now absent
  | decide a =>
    rw [Primaries.step] at stepped
    split at stepped
    · rename_i now
      obtain ⟨cluster, moved, rfl⟩ := Option.map_eq_some_iff.mp stepped
      exact inv.takeOver now aware moved
    · cases stepped
      exact inv.endRound
    · cases stepped

end Steps

/-! ## Runs -/

theorem inv_init (a : Address) : Inv (init a) := by
  have only : ∀ b server, (init a).cluster.server b = some server →
      b = a ∧ server.cluster.self = ⟨FIRST_ID, a.1, a.2⟩ := by
    intro b server found
    dsimp only [init, Ids.init] at found
    rcases update_cases found with ⟨here, ⟨⟩⟩ | ⟨-, ⟨⟩⟩
    exact ⟨here, rfl⟩
  constructor
  case named =>
    intro b server found _
    rw [(only b server found).2]
    exact show FIRST_ID ≠ 0 by decide
  case top =>
    intro b d server other found found' _
    rw [(only b server found).2, (only d other found').2]
    exact UInt32.le_refl _
  case unique =>
    intro b d server other found found' _ _
    exact (only b server found).1.trans (only d other found').1.symm
  case running => exact fun _ _ now => nomatch now
  case above => exact fun _ _ _ _ now => nomatch now

theorem Inv.onePrimary {s : State} (inv : Inv s) : OnePrimary s := by
  intro a b server other found found' role role'
  have below := inv.top b a other server found' found role'
  have above := inv.top a b server other found found' role
  exact inv.unique a b server other found found' (UInt32.le_antisymm below above)
    (inv.named a server found role)

/-- At most one running server is the primary, when servers that take over knew
those above them and ids are given below those of the servers that stand. -/
theorem one_primary {a : Address} {labels : List Label} {s : State}
    (aware : Meets step Aware (init a) labels) (ran : run step (init a) labels = some s) :
    OnePrimary s :=
  (run_invariant (fun _ _ _ inv => inv.step) (inv_init a) aware ran).onePrimary

section Examples

/-- A backup is attached; another server has joined, and the primary crashes before
it attaches that one and tells the first. -/
def unannounced : List Label :=
  [.cluster (.start (port 1)), .cluster (.choose (port 0) (port 1)), .cluster (.join 0),
    .cluster (.receive 0), .cluster (.attach 0), .cluster (.receive 0),
    .cluster (.attached 0 true), .cluster (.start (port 2)),
    .cluster (.choose (port 0) (port 2)), .cluster (.join 0), .cluster (.receive 0),
    .cluster (.crash (port 0))]

/-- Neither of the two has the other in its list, and both take over. -/
theorem two_primaries :
    ¬∀ (a : Address) (labels : List Label) (s : State), Meets step CrashOnly (init a) labels →
      run step (init a) labels = some s → OnePrimary s := by
  intro claim
  obtain ⟨s, ran, first, second⟩ : ∃ s, run step (init (port 0))
      (unannounced ++ [.elect (port 1), .ask (port 1), .decide (port 1), .elect (port 2),
        .ask (port 2), .decide (port 2)]) = some s ∧
        (s.cluster.server (port 1)).map (·.cluster.role) = some .primary ∧
        (s.cluster.server (port 2)).map (·.cluster.role) = some .primary :=
    ⟨_, rfl, by decide +kernel, by decide +kernel⟩
  obtain ⟨server, running, role⟩ := Option.map_eq_some_iff.mp first
  obtain ⟨other, running', role'⟩ := Option.map_eq_some_iff.mp second
  have same := claim _ _ s ?_ ran _ _ _ _ running running' role role'
  · exact absurd same (by decide)
  · exact ⟨trivial, trivial, trivial, trivial, trivial, trivial, nofun, trivial, trivial, trivial,
      trivial, trivial, trivial, trivial, trivial, trivial, trivial, trivial, trivial⟩

/-- One server joins and is attached; the primary crashes, and the other takes over. -/
def succeeded : List Label :=
  [.cluster (.start (port 1)), .cluster (.choose (port 0) (port 1)), .cluster (.join 0),
    .cluster (.receive 0), .cluster (.attach 0), .cluster (.receive 0),
    .cluster (.attached 0 true), .cluster (.crash (port 0)), .elect (port 1), .ask (port 1),
    .decide (port 1)]

theorem one_primary_takeOver :
    ∃ s, run step (init (port 0)) succeeded = some s ∧
      (s.cluster.server (port 1)).map (·.cluster.role) = some .primary ∧ OnePrimary s := by
  obtain ⟨s, ran, role⟩ : ∃ s, run step (init (port 0)) succeeded = some s ∧
      (s.cluster.server (port 1)).map (·.cluster.role) = some .primary :=
    ⟨_, rfl, by decide +kernel⟩
  refine ⟨s, ran, role, one_primary ?_ ran⟩
  refine ⟨trivial, trivial, trivial, ?_, trivial, ?_, trivial, trivial, trivial, trivial, ?_,
    trivial⟩
  · rintro _ id primaryId ⟨⟩ ⟨⟩ _ _ - b other away found
    by_cases first : b = port 0
    · subst first
      cases found
      exact ⟨by decide, fun _ => by decide⟩
    · have second : b ≠ port 1 := away
      simp [Ids.State.put, Ids.State.send, Ids.State.attach, Ids.State.welcome, init, Ids.init,
        first, second] at found
  · rintro _ id primaryId ⟨⟩ ⟨⟩
  · rintro _ ⟨⟩ - -
    refine ⟨by decide, fun b other found higher => ?_⟩
    by_cases second : b = port 1
    · subst second
      cases found
      exact absurd higher (by decide)
    · by_cases first : b = port 0
      · subst first
        cases found
      · simp [Ids.State.put, Ids.State.send, Ids.State.attach, Ids.State.leave, Ids.State.welcome,
          init, Ids.init, State.setRound, addressOf, first, second] at found

end Examples

end SisOp.Primaries
