import SisOp.Cluster.State

/-!
# Broadcasting the membership

`broadcast_membership` and `drop_link` of `server/cluster.cpp`, which call each
other: a link whose exchange fails is dropped, and a dropped link changes the
membership. Any exchange may fail at any time. The state keeps the events.

Main result: `broadcast_settles`, the calls end, and on return the links left are
those on which no exchange failed, each of which acknowledged the final members last;
an exchange has failed when the answer at its time was none.
-/

namespace SisOp.Broadcast

open Lib Std

variable {L : Type}

inductive Event (L : Type) where
  | exchange (id : UInt32) (conn : L) (members : List ServerAddress) (ok : Bool)
  | notified (members : List ServerAddress)
  | shutdown (conn : L)

structure State (L : Type) where
  cluster : Cluster L
  trace : List (Event L)

def State.record (s : State L) (e : Event L) : State L := { s with trace := s.trace ++ [e] }

/-- The loop over the links; `answers` tells which exchanges succeed, by the time they
are made at. The second component is `failed`. -/
def exchanges (answers : Nat → Bool) (members : List ServerAddress) :
    List (UInt32 × L) → State L → State L × List UInt32
  | [], s => (s, [])
  | (id, conn) :: links, s =>
    let ok := answers s.trace.length
    let rest := exchanges answers members links (s.record (.exchange id conn members ok))
    (rest.1, if ok then rest.2 else id :: rest.2)

/-- `drop_link`, with the broadcast it ends with. -/
def dropLink (broadcast : State L → Option (State L)) (s : State L) (id : UInt32) :
    Option (State L) :=
  match s.cluster.links[id]? with
  | none => some s
  | some conn =>
    broadcast (State.record { s with cluster := (s.cluster.takeLink id).removeMember id }
      (.shutdown conn))

/-- `broadcast_membership`; `none` when more than `fuel` broadcasts are under way at a
time. -/
def broadcastMembership (answers : Nat → Bool) : Nat → State L → Option (State L)
  | 0, _ => none
  | fuel + 1, s =>
    let sent := exchanges answers s.cluster.members s.cluster.links.toList s
    sent.2.foldlM (dropLink (broadcastMembership answers fuel))
      (sent.1.record (.notified sent.1.cluster.members))

/-! ## What the events say -/

/-- The links on which an exchange failed. -/
def failures (events : List (Event L)) : List UInt32 :=
  events.filterMap fun
    | .exchange id _ _ false => some id
    | _ => none

/-- The events from a time on, in which each exchange has the answer given at its time. -/
def Answered (answers : Nat → Bool) : Nat → List (Event L) → Prop
  | _, [] => True
  | time, .exchange _ _ _ ok :: events => ok = answers time ∧ Answered answers (time + 1) events
  | time, _ :: events => Answered answers (time + 1) events

/-- An exchange on a link. -/
def OnLink (id : UInt32) : Event L → Prop
  | .exchange other _ _ _ => other = id
  | _ => False

def IsNotice : Event L → Prop
  | .notified _ => True
  | _ => False

/-- The last event of a kind. -/
def Last (kind : Event L → Prop) (events : List (Event L)) (e : Event L) : Prop :=
  ∃ before after, events = before ++ e :: after ∧ ∀ later ∈ after, ¬kind later

/-- What the calls come to: the links in `gone` are removed with their members and
nothing else, and everyone left was told the final members last. -/
structure Settled (answers : Nat → Bool) (gone : List UInt32) (s t : State L)
    (events : List (Event L)) : Prop where
  trace : t.trace = s.trace ++ events
  answered : Answered answers s.trace.length events
  links : ∀ id, t.cluster.links[id]? = if id ∈ gone then none else s.cluster.links[id]?
  members : t.cluster.members = s.cluster.members.filter fun m => m.id ∉ gone
  others : t.cluster =
    { s.cluster with links := t.cluster.links, members := t.cluster.members }
  known : ∀ id ∈ failures events, s.cluster.links[id]? ≠ none
  acknowledged : ∀ id conn, t.cluster.links[id]? = some conn →
    Last (OnLink id) events (.exchange id conn t.cluster.members true)
  notified : Last IsNotice events (.notified t.cluster.members)

section Events

variable {kind : Event L → Prop} {events more : List (Event L)} {e : Event L}
  {answers : Nat → Bool} {time : Nat}

@[simp] theorem failures_nil : failures ([] : List (Event L)) = [] := rfl

theorem failures_append : failures (events ++ more) = failures events ++ failures more :=
  List.filterMap_append

theorem answered_append : Answered answers time (events ++ more) ↔
    Answered answers time events ∧ Answered answers (time + events.length) more := by
  induction events generalizing time with
  | nil => exact (and_iff_right trivial).symm
  | cons e events ih =>
    have later : time + (e :: events).length = time + 1 + events.length := by
      rw [List.length_cons]
      omega
    rw [later]
    cases e with
    | exchange id conn members ok =>
      exact (and_congr_right fun _ => ih).trans and_assoc.symm
    | _ => exact ih

theorem exists_of_mem_failures {id : UInt32} (failed : id ∈ failures events) :
    ∃ e ∈ events, OnLink id e := by
  obtain ⟨e, mem, eq⟩ := List.mem_filterMap.mp failed
  refine ⟨e, mem, ?_⟩
  cases e with
  | exchange other conn members ok =>
    cases ok with
    | true => cases eq
    | false => exact Option.some.inj eq
  | notified members => cases eq
  | shutdown conn => cases eq

theorem Last.append (last : Last kind more e) (events : List (Event L)) :
    Last kind (events ++ more) e := by
  obtain ⟨before, after, rfl, none⟩ := last
  exact ⟨events ++ before, after, (List.append_assoc ..).symm, none⟩

theorem Last.append_of_not (last : Last kind events e) (none : ∀ later ∈ more, ¬kind later) :
    Last kind (events ++ more) e := by
  obtain ⟨before, after, rfl, others⟩ := last
  refine ⟨before, after ++ more, by rw [List.append_assoc, List.cons_append], ?_⟩
  intro later mem
  rcases List.mem_append.mp mem with first | second
  · exact others later first
  · exact none later second

theorem last_single (e : Event L) : Last kind [e] e := ⟨[], [], rfl, fun _ => nofun⟩

end Events

/-! ## One round of exchanges -/

/-- Each link of the snapshot gets one exchange; `failed` are those whose exchange
failed. -/
structure Round (answers : Nat → Bool) (members : List ServerAddress) (links : List (UInt32 × L))
    (s : State L) (result : State L × List UInt32) (events : List (Event L)) : Prop where
  answered : Answered answers s.trace.length events
  state : result.1 = { s with trace := s.trace ++ events }
  failed : result.2 = failures events
  onLinks : ∀ e ∈ events, ¬IsNotice e ∧ ∀ id, OnLink id e → id ∈ links.map Prod.fst
  acknowledged : (links.map Prod.fst).Nodup → ∀ id conn, (id, conn) ∈ links →
    id ∉ failures events → Last (OnLink id) events (.exchange id conn members true)

theorem round_exchanges (answers : Nat → Bool) (members : List ServerAddress)
    (links : List (UInt32 × L)) (s : State L) :
    ∃ events, Round answers members links s (exchanges answers members links s) events := by
  induction links generalizing s with
  | nil => exact ⟨[], trivial, by rw [List.append_nil]; rfl, rfl, fun _ => nofun,
      fun _ _ _ => nofun⟩
  | cons link links ih =>
    obtain ⟨id, conn⟩ := link
    obtain ⟨events, round⟩ := ih (s.record (.exchange id conn members (answers s.trace.length)))
    refine ⟨.exchange id conn members (answers s.trace.length) :: events, ⟨rfl, ?_⟩, ?_, ?_, ?_, ?_⟩
    · have after := round.answered
      rwa [State.record, List.length_append, List.length_singleton] at after
    · rw [exchanges, round.state, State.record, List.append_assoc, List.singleton_append]
    · rw [exchanges, round.failed]
      cases answers s.trace.length <;> rfl
    · refine List.forall_mem_cons.mpr ⟨⟨fun notice => notice, fun other same => ?_⟩,
        fun e mem => ?_⟩
      · exact List.mem_map.mpr ⟨_, List.mem_cons_self, same⟩
      · obtain ⟨notice, on⟩ := round.onLinks e mem
        exact ⟨notice, fun other same => List.mem_cons_of_mem _ (on other same)⟩
    · intro distinct other conn' mem succeeded
      obtain ⟨apart, rest⟩ := List.nodup_cons.mp distinct
      rcases List.mem_cons.mp mem with same | later
      · cases same
        have ok : answers s.trace.length = true := by
          by_contra failed
          rw [Bool.not_eq_true] at failed
          refine succeeded ?_
          rw [failed]
          exact List.mem_cons_self
        refine ⟨[], events, by rw [ok, List.nil_append], fun e mem same => ?_⟩
        exact apart ((round.onLinks e mem).2 _ same)
      · refine (round.acknowledged rest other conn' later fun failed => succeeded ?_).append [_]
        cases answers s.trace.length
        · exact List.mem_cons_of_mem _ failed
        · exact failed

/-! ## The drops that follow -/

/-- In the middle of the loop over `failed`: the links in `removed` are dropped, those
in `pending` are not looked at yet. -/
structure Dropping (answers : Nat → Bool) (s u : State L) (events : List (Event L))
    (removed pending : List UInt32) : Prop where
  trace : u.trace = s.trace ++ events
  answered : Answered answers s.trace.length events
  links : ∀ id, u.cluster.links[id]? = if id ∈ removed then none else s.cluster.links[id]?
  members : u.cluster.members = s.cluster.members.filter fun m => m.id ∉ removed
  others : u.cluster =
    { s.cluster with links := u.cluster.links, members := u.cluster.members }
  acknowledged : ∀ id conn, u.cluster.links[id]? = some conn → id ∉ pending →
    Last (OnLink id) events (.exchange id conn u.cluster.members true)
  notified : Last IsNotice events (.notified u.cluster.members)
  known : ∀ id ∈ failures events, s.cluster.links[id]? ≠ none
  failed : ∀ id ∈ failures events, id ∈ removed ∨ id ∈ pending
  removed : ∀ id ∈ removed, id ∈ failures events
  pending : ∀ id ∈ pending, id ∈ failures events

variable {answers : Nat → Bool} {s t u : State L} {events : List (Event L)}
  {removed pending gone : List UInt32} {id : UInt32} {conn : L}

/-- A drop leaves fewer links. -/
theorem size_takeLink {c : Cluster L} (present : c.links[id]? ≠ none) :
    ((c.takeLink id).removeMember id).links.size < c.links.size := by
  refine Map.size_lt_of_mem (fun other mem => ?_) (Map.mem_iff_ne_none.mpr present) ?_
  · exact (Map.mem_erase_iff.mp mem).2
  · exact fun mem => (Map.mem_erase_iff.mp mem).1 rfl

/-- Before the first drop. -/
theorem dropping_start (answers : Nat → Bool) (s : State L) :
    ∃ events, Dropping answers s
      ((exchanges answers s.cluster.members s.cluster.links.toList s).1.record
        (.notified (exchanges answers s.cluster.members s.cluster.links.toList
          s).1.cluster.members))
      events [] (exchanges answers s.cluster.members s.cluster.links.toList s).2 := by
  obtain ⟨events, round⟩ := round_exchanges answers s.cluster.members s.cluster.links.toList s
  have quiet : failures (events ++ [.notified s.cluster.members]) = failures events := by
    rw [failures_append]
    exact List.append_nil _
  have distinct : (s.cluster.links.toList.map Prod.fst).Nodup := by
    rw [ExtTreeMap.map_fst_toList_eq_keys]
    exact ExtTreeMap.distinct_keys.imp fun other same => other (Std.compare_eq_iff_eq.mpr same)
  rw [round.state, round.failed]
  refine ⟨events ++ [.notified s.cluster.members], ?_, answered_append.mpr ⟨round.answered, ?_⟩,
    fun id => ?_, ?_, rfl,
    fun id conn live succeeded => ?_, ?_, ?_, ?_, nofun, ?_⟩
  · rw [State.record, List.append_assoc]
  · trivial
  · rw [if_neg List.not_mem_nil]
    rfl
  · simp only [State.record, List.not_mem_nil, not_false_eq_true, decide_true, List.filter_true]
  · refine (round.acknowledged distinct id conn (Map.mem_toList_iff.mpr live)
      succeeded).append_of_not ?_
    exact fun later only on => by rwa [List.mem_singleton.mp only] at on
  · exact (last_single _).append events
  · rw [quiet]
    intro id failed
    obtain ⟨e, mem, on⟩ := exists_of_mem_failures failed
    obtain ⟨⟨key, conn⟩, link, rfl⟩ := List.mem_map.mp ((round.onLinks e mem).2 id on)
    rw [Map.mem_toList_iff.mp link]
    exact Option.some_ne_none _
  · rw [quiet]
    exact fun id failed => .inr failed
  · rw [quiet]
    exact fun id failed => failed

/-- When nothing is left to drop. -/
theorem Dropping.settled (loop : Dropping answers s u events removed []) :
    Settled answers (failures events) s u events := by
  have same : ∀ id, id ∈ removed ↔ id ∈ failures events := fun id =>
    ⟨loop.removed id, fun failed => (loop.failed id failed).resolve_right List.not_mem_nil⟩
  refine ⟨loop.trace, loop.answered, fun id => ?_, ?_, loop.others, loop.known,
    fun id conn live => ?_, loop.notified⟩
  · simp only [loop.links, same]
  · simp only [loop.members, same]
  · exact loop.acknowledged id conn live List.not_mem_nil

theorem Dropping.mem_links (loop : Dropping answers s u events removed pending)
    (mem : id ∈ u.cluster.links) : id ∈ s.cluster.links := by
  rw [Map.mem_iff_ne_none, loop.links] at mem
  rw [Map.mem_iff_ne_none]
  intro absent
  rw [absent, ite_self] at mem
  exact mem rfl

/-- A link that is gone already is passed over. -/
theorem Dropping.skip (loop : Dropping answers s u events removed (id :: pending))
    (absent : u.cluster.links[id]? = none) : Dropping answers s u events removed pending := by
  have gone : id ∈ removed := by
    by_contra live
    rw [loop.links, if_neg live] at absent
    exact loop.known id (loop.pending id List.mem_cons_self) absent
  refine { loop with acknowledged := fun other conn live later => ?_
                     failed := fun other failed => ?_
                     pending := fun other mem => loop.pending other (List.mem_cons_of_mem _ mem) }
  · refine loop.acknowledged other conn live fun mem => ?_
    rcases List.mem_cons.mp mem with rfl | mem
    · rw [absent] at live
      cases live
    · exact later mem
  · rcases loop.failed other failed with earlier | mem
    · exact .inl earlier
    · rcases List.mem_cons.mp mem with rfl | mem
      · exact .inl gone
      · exact .inr mem

/-- A link that is dropped takes those along that its broadcast drops. -/
theorem Dropping.drop (loop : Dropping answers s u events removed (id :: pending))
    (present : u.cluster.links[id]? = some conn) {more : List (Event L)}
    (settled : Settled answers (failures more) (State.record
      { u with cluster := (u.cluster.takeLink id).removeMember id } (.shutdown conn)) t more) :
    Dropping answers s t (events ++ .shutdown conn :: more)
      (id :: failures more ++ removed) pending := by
  have all : failures (events ++ .shutdown conn :: more) = failures events ++ failures more :=
    failures_append
  refine ⟨?_, answered_append.mpr ⟨loop.answered, ?_⟩, fun other => ?_, ?_, ?_,
    fun other conn' live _ => ?_, ?_, ?_, ?_, ?_, ?_⟩
  · rw [settled.trace]
    simp only [State.record, loop.trace, List.append_assoc, List.cons_append, List.nil_append]
  · have after := settled.answered
    rw [State.record, List.length_append, loop.trace, List.length_append] at after
    exact after
  · rw [settled.links]
    simp only [State.record, Cluster.removeMember, Cluster.takeLink, Map.getElem?_erase, loop.links,
      List.mem_append, List.mem_cons]
    grind
  · rw [settled.members]
    simp only [State.record, Cluster.removeMember, Cluster.takeLink, loop.members,
      List.filter_filter, List.mem_append, List.mem_cons]
    refine List.filter_congr fun m _ => ?_
    grind
  · rw [settled.others]
    simp only [State.record, Cluster.removeMember, Cluster.takeLink]
    rw [loop.others]
  · exact ((settled.acknowledged other conn' live).append [_]).append events
  · exact (settled.notified.append [_]).append events
  · rw [all]
    intro other failed
    rcases List.mem_append.mp failed with before | after
    · exact loop.known other before
    · intro absent
      refine settled.known other after ?_
      simp only [State.record, Cluster.removeMember, Cluster.takeLink, Map.getElem?_erase,
        loop.links, absent, ite_self]
  · rw [all]
    intro other failed
    rcases List.mem_append.mp failed with before | after
    · rcases loop.failed other before with earlier | mem
      · exact .inl (List.mem_append_right _ earlier)
      · rcases List.mem_cons.mp mem with rfl | mem
        · exact .inl (List.mem_append_left _ List.mem_cons_self)
        · exact .inr mem
    · exact .inl (List.mem_append_left _ (List.mem_cons_of_mem _ after))
  · rw [all]
    intro other mem
    rcases List.mem_append.mp mem with now | earlier
    · rcases List.mem_cons.mp now with rfl | after
      · exact List.mem_append_left _ (loop.pending other List.mem_cons_self)
      · exact List.mem_append_right _ after
    · exact List.mem_append_left _ (loop.removed other earlier)
  · rw [all]
    exact fun other mem =>
      List.mem_append_left _ (loop.pending other (List.mem_cons_of_mem _ mem))

/-- The loop ends when each broadcast in it does. -/
theorem drops_settle {broadcast : State L → Option (State L)} {fuel : Nat}
    (ends : ∀ s : State L, s.cluster.links.size < fuel →
      ∃ t events, broadcast s = some t ∧ Settled answers (failures events) s t events)
    (small : s.cluster.links.size ≤ fuel) (loop : Dropping answers s u events removed pending) :
    ∃ t events, pending.foldlM (dropLink broadcast) u = some t ∧
      Settled answers (failures events) s t events := by
  induction pending generalizing u events removed with
  | nil => exact ⟨u, events, rfl, loop.settled⟩
  | cons id pending ih =>
    rw [List.foldlM_cons]
    cases found : u.cluster.links[id]? with
    | none =>
      have step : dropLink broadcast u id = some u := by rw [dropLink, found]
      rw [step]
      exact ih (loop.skip found)
    | some conn =>
      have smaller : ((u.cluster.takeLink id).removeMember id).links.size < fuel := by
        have here : id ∈ u.cluster.links := by
          rw [Map.mem_iff_ne_none, found]
          exact Option.some_ne_none _
        refine Nat.lt_of_lt_of_le
          (Map.size_lt_of_mem (fun other mem => ?_) (loop.mem_links here) ?_)
          small
        · exact loop.mem_links (Map.mem_erase_iff.mp mem).2
        · exact fun mem => (Map.mem_erase_iff.mp mem).1 rfl
      obtain ⟨t, more, run, settled⟩ := ends (State.record
        { u with cluster := (u.cluster.takeLink id).removeMember id } (.shutdown conn)) smaller
      have step : dropLink broadcast u id = some t := by
        rw [dropLink, found]
        exact run
      rw [step]
      exact ih (loop.drop found settled)

/-! ## The calls end -/

/-- With one broadcast for each link and one more the calls end, and settle. -/
theorem broadcast_ends (answers : Nat → Bool) {fuel : Nat} (s : State L)
    (enough : s.cluster.links.size < fuel) :
    ∃ t events, broadcastMembership answers fuel s = some t ∧
      Settled answers (failures events) s t events := by
  induction fuel generalizing s with
  | zero => exact absurd enough (Nat.not_lt_zero _)
  | succ fuel ih =>
    obtain ⟨events, loop⟩ := dropping_start answers s
    exact drops_settle (fun s small => ih s small) (Nat.le_of_lt_succ enough) loop

theorem foldlM_mono {σ α : Type} {f g : σ → α → Option σ}
    (mono : ∀ s a t, f s a = some t → g s a = some t) {l : List α} {s t : σ}
    (run : l.foldlM f s = some t) : l.foldlM g s = some t := by
  induction l generalizing s with
  | nil => exact run
  | cons a l ih =>
    rw [List.foldlM_cons] at run ⊢
    obtain ⟨u, first, rest⟩ := Option.bind_eq_some_iff.mp run
    rw [mono s a u first]
    exact ih rest

theorem dropLink_mono {broadcast broadcast' : State L → Option (State L)}
    (mono : ∀ s t, broadcast s = some t → broadcast' s = some t) (id : UInt32)
    (run : dropLink broadcast s id = some t) : dropLink broadcast' s id = some t := by
  unfold dropLink at run ⊢
  cases found : s.cluster.links[id]? with
  | none => rwa [found] at run
  | some conn =>
    rw [found] at run
    exact mono _ _ run

/-- The drop that a broadcast ends. -/
theorem Settled.after_drop (settled : Settled answers (failures events) (State.record
      { s with cluster := (s.cluster.takeLink id).removeMember id } (.shutdown conn)) t events) :
    Settled answers (id :: failures (.shutdown conn :: events)) s t (.shutdown conn :: events) := by
  have same : failures (.shutdown conn :: events) = failures events := rfl
  refine ⟨?_, ?_, fun other => ?_, ?_, settled.others, fun other failed absent => ?_,
    fun other conn' live => (settled.acknowledged other conn' live).append [_],
    settled.notified.append [_]⟩
  · rw [settled.trace]
    exact List.append_assoc ..
  · have after := settled.answered
    rwa [State.record, List.length_append, List.length_singleton] at after
  · rw [settled.links, same]
    simp only [State.record, Cluster.removeMember, Cluster.takeLink, Map.getElem?_erase,
      List.mem_cons]
    grind
  · rw [settled.members, same]
    simp only [State.record, Cluster.removeMember, Cluster.takeLink, List.filter_filter,
      List.mem_cons]
    refine List.filter_congr fun m _ => ?_
    grind
  · refine settled.known other failed ?_
    simp only [State.record, Cluster.removeMember, Cluster.takeLink, Map.getElem?_erase, absent,
      ite_self]

/-- More fuel changes nothing. -/
theorem broadcast_mono (answers : Nat → Bool) {fuel fuel' : Nat} (le : fuel ≤ fuel')
    (run : broadcastMembership answers fuel s = some t) :
    broadcastMembership answers fuel' s = some t := by
  induction fuel generalizing fuel' s t with
  | zero => cases run
  | succ fuel ih =>
    obtain ⟨more, rfl⟩ : ∃ more, fuel' = more + 1 := ⟨fuel' - 1, by omega⟩
    exact foldlM_mono (fun s id t =>
      dropLink_mono (fun s t => ih (Nat.le_of_succ_le_succ le)) id) run

/-- **`broadcast_membership` and `drop_link` end, and agree.** Whichever exchanges fail,
the links gone are those on which one failed, and the one that was dropped to begin
with; each link left acknowledged the final members last. -/
theorem broadcast_settles (answers : Nat → Bool) (s : State L) :
    (∃ t events, (∀ fuel, s.cluster.links.size < fuel →
        broadcastMembership answers fuel s = some t) ∧
          Settled answers (failures events) s t events) ∧
      ∀ id, ∃ t, (∀ fuel, s.cluster.links.size < fuel →
          dropLink (broadcastMembership answers fuel) s id = some t) ∧
        (s.cluster.links[id]? = none → t = s) ∧
          (s.cluster.links[id]? ≠ none →
            ∃ events, Settled answers (id :: failures events) s t events) := by
  constructor
  · obtain ⟨t, events, run, settled⟩ := broadcast_ends answers s (Nat.lt_succ_self _)
    exact ⟨t, events, fun fuel enough => broadcast_mono answers enough run, settled⟩
  · intro id
    cases found : s.cluster.links[id]? with
    | none =>
      refine ⟨s, fun fuel _ => ?_, fun _ => rfl, fun present => absurd rfl present⟩
      rw [dropLink, found]
    | some conn =>
      have smaller : ((s.cluster.takeLink id).removeMember id).links.size < s.cluster.links.size :=
        size_takeLink (by rw [found]; exact Option.some_ne_none _)
      obtain ⟨t, events, run, settled⟩ := broadcast_ends answers (State.record
        { s with cluster := (s.cluster.takeLink id).removeMember id } (.shutdown conn)) smaller
      refine ⟨t, fun fuel enough => ?_, nofun, fun _ => ⟨_, settled.after_drop⟩⟩
      rw [dropLink, found]
      exact broadcast_mono answers (Nat.le_of_lt enough) run

section Examples

/-- A primary with two backups, on the links 0 and 1. -/
def twoBackups : State Nat where
  cluster :=
    { self := ⟨1000, [0], 0⟩
      role := .primary
      primary := ⟨1000, [0], 0⟩
      primaryKnown := true
      members := [⟨1000, [0], 0⟩, ⟨999, [1], 1⟩, ⟨998, [2], 2⟩]
      lowestId := 998
      links := ((∅ : ExtTreeMap UInt32 Nat).insert 999 0).insert 998 1
      primaryLink := none
      buildingManifest := false
      coordinatorSeen := false }
  trace := []

/-- The first exchange fails: the backup is dropped, and the other one told. -/
example : (broadcastMembership (fun time => time ≠ 0) 3 twoBackups).map (fun t =>
    (t.cluster.links.keys, t.cluster.members.map ServerAddress.id, failures t.trace)) =
      some ([999], [1000, 999], [998]) := by decide +kernel

end Examples

end SisOp.Broadcast
