import SisOp.Cluster.State
import SisOp.Lib.Run
import Mathlib.Logic.Function.Basic

/-!
# Servers joining at the same time

Any number of `handle_join` calls on one primary, each on its own thread. A
handler computes an id in one critical section (`reserve`) and records the
member in another (`record`), then attaches the replica; other handlers, and
the threads that drop failed links, run in between.

Main result: `distinct_of_alone`, the ids are distinct and every joined server
is its own member as long as no handler computes an id while another is between
the two sections.
-/

namespace SisOp.Join

open Lib Std Function

/-- Where a `handle_join` call is. -/
inductive Phase where
  | arrived
  | refused
  | reserved (id : UInt32)
  | recorded (id : UInt32)
  | attached (id : UInt32)
  | unattached (id : UInt32)
  | removed (id : UInt32)
  deriving DecidableEq, Repr

/-- The id in the `JoinOk` reply, sent once the member is recorded. -/
@[simp, grind =] def Phase.replied : Phase → Option UInt32
  | recorded id | attached id | unattached id | removed id => some id
  | _ => none

@[simp, grind =] def Phase.isReserved : Phase → Bool
  | reserved _ => true
  | _ => false

/-- The primary and its handlers. A link is tagged with the handler that
attached it, `none` when it is older; `dropping` holds the ids of the
`drop_link` calls that took the link and have not removed the member yet. -/
structure State (ι : Type) where
  cluster : Cluster (Option ι)
  phase : ι → Phase
  dropping : List UInt32

inductive Label (ι : Type) where
  | reserve (i : ι)
  | record (i : ι)
  | attach (i : ι) (ok : Bool)
  | remove (i : ι)
  | takeLink (id : UInt32)
  | dropMember (id : UInt32)

variable {ι : Type} (host : ι → Bytes) (port : ι → UInt16)

def init (c : Cluster (Option ι)) : State ι := ⟨c, fun _ => .arrived, []⟩

/-- One critical section of one thread. -/
def step [DecidableEq ι] (s : State ι) : Label ι → Option (State ι)
  | .reserve i =>
    if s.phase i = .arrived then
      if s.cluster.role = .primary then
        let (cluster, id) := s.cluster.assignId (host i) (port i)
        let phase := if id = 0 then .refused else .reserved id
        some { s with cluster, phase := update s.phase i phase }
      else some { s with phase := update s.phase i .refused }
    else none
  | .record i =>
    match s.phase i with
    | .reserved id =>
      some { s with cluster := s.cluster.addMember ⟨id, host i, port i⟩
                    phase := update s.phase i (.recorded id) }
    | _ => none
  | .attach i ok =>
    match s.phase i with
    | .recorded id =>
      if ok then
        some { s with cluster := s.cluster.setLink id (some i)
                      phase := update s.phase i (.attached id) }
      else some { s with phase := update s.phase i (.unattached id) }
    | _ => none
  | .remove i =>
    match s.phase i with
    | .unattached id =>
      some { s with cluster := s.cluster.removeMember id
                    phase := update s.phase i (.removed id) }
    | _ => none
  | .takeLink id =>
    if id ∈ s.cluster.links then
      some { s with cluster := s.cluster.takeLink id, dropping := id :: s.dropping }
    else none
  | .dropMember id =>
    if id ∈ s.dropping then
      some { s with cluster := s.cluster.removeMember id, dropping := s.dropping.erase id }
    else none

/-- A handler computes an id only while no other is between computing and
recording one. -/
def Alone (s : State ι) : Label ι → Prop
  | .reserve _ => ∀ j, (s.phase j).isReserved = false
  | _ => True

/-- A primary as `start_as_primary` and `become_primary` leave it: no id in use
is below `lowest_id_`, and none is 0. -/
structure Ready {L : Type} (c : Cluster L) : Prop where
  primary : c.role = .primary
  positive : 0 < c.lowestId
  members : ∀ m ∈ c.members, c.lowestId ≤ m.id
  links : ∀ id ∈ c.links, c.lowestId ≤ id

theorem ready_startAsPrimary {L : Type} (host : Bytes) (port : UInt16) :
    Ready (Cluster.init (L := L) host port).startAsPrimary where
  primary := rfl
  positive := show (0 : UInt32) < 1000 by decide
  members m mem := by
    rw [List.mem_singleton.mp mem]
    exact Std.le_refl _
  links id mem := (ExtTreeMap.not_mem_empty mem).elim

theorem ready_becomePrimary {L : Type} {c : Cluster L} (unlinked : c.links = ∅)
    (self : 0 < c.self.id) (positive : ∀ m ∈ c.members, 0 < m.id) :
    Ready c.becomePrimary.1 where
  primary := rfl
  positive := by
    have kept : ∀ m ∈ c.becomePrimary.1.members, 0 < m.id := by
      intro m mem
      simp only [Cluster.becomePrimary] at mem
      split at mem
      · exact positive m mem
      · exact positive m (List.mem_of_mem_filter mem)
    exact one_le_iff_pos.mp ((le_foldl_min _ _ _).mpr
      ⟨one_le_iff_pos.mpr self, fun m mem => one_le_iff_pos.mpr (kept m mem)⟩)
  members m mem := foldl_min_le _ _ mem
  links id mem := by
    change id ∈ c.links at mem
    rw [unlinked] at mem
    exact (ExtTreeMap.not_mem_empty mem).elim

/-- What the claim of distinct ids comes to in one state, `known` being the
members before the handlers started. -/
structure Distinct (known : List ServerAddress) (s : State ι) : Prop where
  distinct : ∀ i j id, (s.phase i).replied = some id → (s.phase j).replied = some id → i = j
  fresh : ∀ i id, (s.phase i).replied = some id → ∀ m ∈ known, m.id ≠ id
  member : ∀ i id, s.phase i = .attached id → s.cluster.links[id]? = some (some i) →
    ⟨id, host i, port i⟩ ∈ s.cluster.members ∧
      ∀ m ∈ s.cluster.members, m.id = id → m = ⟨id, host i, port i⟩

/-- What every allowed step preserves. All ids in use are at or above
`lowest_id_`; the one id computed and not recorded is below it. -/
structure Inv (known : List ServerAddress) (s : State ι) : Prop where
  primary : s.cluster.role = .primary
  positive : 0 < s.cluster.lowestId
  members : ∀ m ∈ s.cluster.members, s.cluster.lowestId ≤ m.id ∧
    (m ∈ known ∨ ∃ i id, (s.phase i).replied = some id ∧ m = ⟨id, host i, port i⟩)
  before : ∀ m ∈ known, s.cluster.lowestId ≤ m.id
  links : ∀ id ∈ s.cluster.links, s.cluster.lowestId ≤ id ∧ ∀ i, s.phase i ≠ .recorded id
  dropping : ∀ id ∈ s.dropping, s.cluster.lowestId ≤ id ∧ id ∉ s.cluster.links ∧
    ∀ i, s.phase i ≠ .recorded id
  reserved : ∀ i id, s.phase i = .reserved id →
    0 < id ∧ id < s.cluster.lowestId ∧ ∀ j, (s.phase j).isReserved = true → j = i
  replied : ∀ i id, (s.phase i).replied = some id → s.cluster.lowestId ≤ id
  distinct : ∀ i j id, (s.phase i).replied = some id → (s.phase j).replied = some id → i = j
  fresh : ∀ i id, (s.phase i).replied = some id → ∀ m ∈ known, m.id ≠ id
  entry : ∀ i id, s.phase i = .recorded id ∨
      s.phase i = .attached id ∧ s.cluster.links[id]? = some (some i) →
    ⟨id, host i, port i⟩ ∈ s.cluster.members

variable {host port} {known : List ServerAddress} {s s' : State ι}

theorem Inv.toDistinct (inv : Inv host port known s) : Distinct host port known s where
  distinct := inv.distinct
  fresh := inv.fresh
  member i id attached live := by
    refine ⟨inv.entry i id (.inr ⟨attached, live⟩), fun m mem same => ?_⟩
    have replied : (s.phase i).replied = some id := by rw [attached]; rfl
    rcases (inv.members m mem).2 with old | ⟨j, other, joined, rfl⟩
    · exact (inv.fresh i id replied m old same).elim
    · obtain rfl : other = id := same
      rw [inv.distinct i j other replied joined]

theorem inv_init {c : Cluster (Option ι)} (ready : Ready c) :
    Inv host port c.members (init c) where
  primary := ready.primary
  positive := ready.positive
  members m mem := ⟨ready.members m mem, .inl mem⟩
  before := ready.members
  links id mem := ⟨ready.links id mem, fun _ => nofun⟩
  dropping id mem := nomatch mem
  reserved i id := nofun
  replied i id := nofun
  distinct i j id := nofun
  fresh i id := nofun
  entry i id := by rintro (reserved | ⟨attached, -⟩) <;> cases ‹_›

/-! ## One step at a time -/

variable [DecidableEq ι] {i : ι} {p : Phase} {id : UInt32}

/-- A handler that moves on without recording, reserving or attaching. -/
theorem Inv.move (inv : Inv host port known s) (reply : p.replied = (s.phase i).replied)
    (quiet : p.isReserved = false ∧ (∀ id, p ≠ .recorded id) ∧ ∀ id, p ≠ .attached id) :
    Inv host port known { s with phase := update s.phase i p } := by
  have replies : ∀ j, (update s.phase i p j).replied = (s.phase j).replied := by grind
  constructor
  case primary => exact inv.primary
  case positive => exact inv.positive
  case before => exact inv.before
  case members => simpa only [replies] using inv.members
  case links => have := inv.links; grind
  case dropping => have := inv.dropping; grind
  case reserved => have := inv.reserved; grind
  case replied => simpa only [replies] using inv.replied
  case distinct => simpa only [replies] using inv.distinct
  case fresh => simpa only [replies] using inv.fresh
  case entry => have := inv.entry; grind

omit [DecidableEq ι] in
/-- Removing a member that no recorded or linked handler stands for. -/
theorem Inv.removeMember (inv : Inv host port known s) (id : UInt32)
    (unused : ∀ i, ¬(s.phase i = .recorded id ∨
      s.phase i = .attached id ∧ s.cluster.links[id]? = some (some i))) :
    Inv host port known { s with cluster := s.cluster.removeMember id } := by
  constructor
  case primary => exact inv.primary
  case positive => exact inv.positive
  case before => exact inv.before
  case members => exact fun m mem => inv.members m (Cluster.mem_removeMember.mp mem).1
  case links => exact inv.links
  case dropping => exact inv.dropping
  case reserved => exact inv.reserved
  case replied => exact inv.replied
  case distinct => exact inv.distinct
  case fresh => exact inv.fresh
  case entry =>
    intro i other live
    refine Cluster.mem_removeMember.mpr ⟨inv.entry i other live, ?_⟩
    rintro rfl
    exact unused i live

section Newcomers

variable (newcomers : ∀ i, ∀ m ∈ known, ¬(m.host = host i ∧ m.port = port i))
  (apart : ∀ i j, host i = host j → port i = port j → i = j)
include newcomers apart

omit [DecidableEq ι] in
/-- A newcomer gets the id below the lowest. -/
theorem Inv.assignId (inv : Inv host port known s) (arrived : s.phase i = .arrived) :
    s.cluster.assignId (host i) (port i) = (s.cluster, s.cluster.lowestId - 1) := by
  refine Cluster.assignId_eq_of_new (fun m mem same => ?_) fun m mem => (inv.members m mem).1
  rcases (inv.members m mem).2 with old | ⟨j, id, joined, rfl⟩
  · exact newcomers i m old same
  · rw [apart j i same.1 same.2, arrived] at joined
    cases joined

theorem Inv.reserve (inv : Inv host port known s) (alone : Alone s (.reserve i))
    (stepped : step host port s (.reserve i) = some s') : Inv host port known s' := by
  simp only [step] at stepped
  split at stepped
  case isFalse => cases stepped
  rename_i arrived
  rw [if_pos inv.primary, inv.assignId newcomers apart arrived] at stepped
  cases stepped
  have below := pred_lt inv.positive
  have alone : ∀ j, (s.phase j).isReserved = false := alone
  by_cases spent : s.cluster.lowestId - 1 = 0
  · simp only [if_pos spent]
    exact inv.move (by rw [arrived]; rfl) ⟨rfl, nofun, nofun⟩
  · simp only [if_neg spent]
    constructor
    case primary => exact inv.primary
    case positive => exact inv.positive
    case before => exact inv.before
    case members => have := inv.members; grind
    case links => have := inv.links; grind
    case dropping => have := inv.dropping; grind
    case reserved => grind
    case replied => have := inv.replied; grind
    case distinct => have := inv.distinct; grind
    case fresh => have := inv.fresh; grind
    case entry => have := inv.entry; grind

end Newcomers

/-- The id that was computed becomes the lowest. -/
theorem Inv.record (inv : Inv host port known s) (reserved : s.phase i = .reserved id) :
    Inv host port known { s with cluster := s.cluster.addMember ⟨id, host i, port i⟩
                                 phase := update s.phase i (.recorded id) } := by
  obtain ⟨positive, below, alone⟩ := inv.reserved i id reserved
  have lowest := Cluster.lowestId_addMember (m := ⟨id, host i, port i⟩) inv.positive below
  constructor
  case primary => exact inv.primary
  case positive => exact lowest ▸ positive
  case before => have := inv.before; grind
  case members =>
    intro m mem
    rw [lowest]
    rcases mem_of_mem_upsert mem with rfl | mem
    · exact ⟨Std.le_refl _, .inr ⟨i, id, by simp, rfl⟩⟩
    · have := inv.members m mem
      grind
  case links =>
    intro other mem
    have old : other ∈ s.cluster.links := mem
    have := inv.links other old
    grind
  case dropping => have := inv.dropping; grind [Cluster.addMember]
  case reserved => grind
  case replied => have := inv.replied; grind
  case distinct => have := inv.distinct; have := inv.replied; grind
  case fresh => have := inv.fresh; have := inv.before; grind
  case entry =>
    intro j other live
    by_cases same : j = i
    · subst j
      obtain rfl : other = id := by grind
      exact mem_upsert_self
    · have earlier : s.phase j = .recorded other ∨
          s.phase j = .attached other ∧ s.cluster.links[other]? = some (some j) := by
        simp only [update_of_ne same] at live
        exact live
      refine mem_upsert_of_ne (inv.entry j other earlier) ?_
      have := inv.replied j other
      grind

/-- A link goes live under an id that no other handler was given. -/
theorem Inv.attach (inv : Inv host port known s) (recorded : s.phase i = .recorded id) :
    Inv host port known { s with cluster := s.cluster.setLink id (some i)
                                 phase := update s.phase i (.attached id) } := by
  have links : ∀ other, (s.cluster.setLink id (some i)).links[other]? =
      if other = id then some (some i) else s.cluster.links[other]? :=
    fun other => Map.getElem?_insert ..
  have present : ∀ other, other ∈ (s.cluster.setLink id (some i)).links ↔
      other = id ∨ other ∈ s.cluster.links := fun other => Map.mem_insert_iff
  constructor
  case primary => exact inv.primary
  case positive => exact inv.positive
  case before => exact inv.before
  case members => have := inv.members; grind [Cluster.setLink]
  case links =>
    intro other mem
    have := inv.links other
    have := inv.replied i id
    have := inv.distinct i
    grind [Cluster.setLink]
  case dropping =>
    intro other mem
    have := inv.dropping other mem
    grind [Cluster.setLink]
  case reserved => have := inv.reserved; grind [Cluster.setLink]
  case replied => have := inv.replied; grind [Cluster.setLink]
  case distinct => have := inv.distinct; grind
  case fresh => have := inv.fresh; grind
  case entry =>
    intro j other live
    have := inv.entry j other
    have := inv.distinct i j other
    grind [Cluster.setLink]

omit [DecidableEq ι] in
theorem Inv.takeLink (inv : Inv host port known s) (linked : id ∈ s.cluster.links) :
    Inv host port known { s with cluster := s.cluster.takeLink id
                                 dropping := id :: s.dropping } := by
  have links : ∀ other, (s.cluster.takeLink id).links[other]? =
      if other = id then none else s.cluster.links[other]? :=
    fun other => Map.getElem?_erase ..
  have present : ∀ other, other ∈ (s.cluster.takeLink id).links ↔
      other ≠ id ∧ other ∈ s.cluster.links := fun other => Map.mem_erase_iff
  constructor
  case primary => exact inv.primary
  case positive => exact inv.positive
  case before => exact inv.before
  case members => exact inv.members
  case links => have := inv.links; grind [Cluster.takeLink]
  case dropping =>
    intro other mem
    have := inv.links id linked
    rcases List.mem_cons.mp mem with rfl | mem
    · exact ⟨this.1, by grind, this.2⟩
    · have := inv.dropping other mem
      grind [Cluster.takeLink]
  case reserved => exact inv.reserved
  case replied => exact inv.replied
  case distinct => exact inv.distinct
  case fresh => exact inv.fresh
  case entry => have := inv.entry; grind [Cluster.takeLink]

theorem Inv.step (newcomers : ∀ i, ∀ m ∈ known, ¬(m.host = host i ∧ m.port = port i))
    (apart : ∀ i j, host i = host j → port i = port j → i = j) (a : Label ι)
    (inv : Inv host port known s) (alone : Alone s a) (stepped : step host port s a = some s') :
    Inv host port known s' := by
  cases a with
  | reserve i => exact inv.reserve newcomers apart alone stepped
  | record i =>
    simp only [Join.step] at stepped
    split at stepped
    · rename_i id reserved
      cases stepped
      exact inv.record reserved
    · cases stepped
  | attach i ok =>
    simp only [Join.step] at stepped
    split at stepped
    · rename_i id recorded
      cases ok with
      | true =>
        cases stepped
        exact inv.attach recorded
      | false =>
        cases stepped
        exact inv.move (by rw [recorded]; rfl) ⟨rfl, nofun, nofun⟩
    · cases stepped
  | remove i =>
    simp only [Join.step] at stepped
    split at stepped
    · rename_i id unattached
      cases stepped
      have replied : (s.phase i).replied = some id := by rw [unattached]; rfl
      refine Inv.move (s := { s with cluster := s.cluster.removeMember id })
        (inv.removeMember _ fun j live => ?_) (by rw [unattached]; rfl) ⟨rfl, nofun, nofun⟩
      have := inv.distinct i j id replied
      grind
    · cases stepped
  | takeLink id =>
    simp only [Join.step] at stepped
    split at stepped
    · cases stepped
      exact inv.takeLink ‹_›
    · cases stepped
  | dropMember id =>
    simp only [Join.step] at stepped
    split at stepped
    · rename_i dropping
      cases stepped
      obtain ⟨-, unlinked, -⟩ := inv.dropping id dropping
      have removed := inv.removeMember id fun j live => by
        rcases live with recorded | ⟨-, live⟩
        · exact (inv.dropping id dropping).2.2 j recorded
        · rw [ExtTreeMap.getElem?_eq_none unlinked] at live
          cases live
      exact { removed with
        dropping := fun other mem => removed.dropping other (List.mem_of_mem_erase mem) }
    · cases stepped

/-- **Concurrent joins get distinct ids when they are computed one at a time.**
On a primary, for any number of `handle_join` calls from different addresses
that are no member's, in every state of every run in which no id is computed
while another waits to be recorded: the ids in the replies differ from each
other and from the members' before, and every server whose link is in place is
its own member. -/
theorem distinct_of_alone {c : Cluster (Option ι)} (ready : Ready c)
    (newcomers : ∀ i, ∀ m ∈ c.members, ¬(m.host = host i ∧ m.port = port i))
    (apart : ∀ i j, host i = host j → port i = port j → i = j) {labels : List (Label ι)}
    (alone : Meets (step host port) Alone (init c) labels)
    (ran : run (step host port) (init c) labels = some s) : Distinct host port c.members s :=
  (run_invariant (fun _ a _ => Inv.step newcomers apart a) (inv_init ready) alone ran).toDistinct

/-! ## Two servers joining a new cluster -/

section Examples

/-- A cluster of one, just started. -/
def founded : Cluster (Option Bool) := (Cluster.init (bytes "a") 4000).startAsPrimary

/-- Two more servers on the same host. -/
def twoPorts (i : Bool) : UInt16 := if i then 4001 else 4002

theorem twoPorts_new (i : Bool) :
    ∀ m ∈ founded.members, ¬(m.host = bytes "a" ∧ m.port = twoPorts i) := by
  cases i <;> decide

theorem twoPorts_apart (i j : Bool) (_ : bytes "a" = bytes "a") (same : twoPorts i = twoPorts j) :
    i = j := by
  cases i <;> cases j <;> first | rfl | exact absurd same (by decide)

/-- Both handlers compute an id before either records it: both servers get 999. -/
theorem same_id_of_overlap :
    ¬∀ (ι : Type) [DecidableEq ι] (host : ι → Bytes) (port : ι → UInt16)
      (c : Cluster (Option ι)) (labels : List (Label ι)) (s : State ι), Ready c →
      (∀ i, ∀ m ∈ c.members, ¬(m.host = host i ∧ m.port = port i)) →
      (∀ i j, host i = host j → port i = port j → i = j) →
      run (step host port) (init c) labels = some s → Distinct host port c.members s := by
  intro claim
  obtain ⟨s, ran, first, second⟩ : ∃ s, run (step (fun _ => bytes "a") twoPorts) (init founded)
      [.reserve true, .reserve false, .record true, .record false] = some s ∧
        (s.phase true).replied = some 999 ∧ (s.phase false).replied = some 999 :=
    ⟨_, rfl, by decide, by decide⟩
  have distinct := claim Bool _ _ founded _ s (ready_startAsPrimary _ _) twoPorts_new
    twoPorts_apart ran
  exact absurd (distinct.distinct true false 999 first second) (by decide)

/-- One after the other they get 999 and 998. -/
theorem distinct_one_by_one :
    ∃ s, run (step (fun _ => bytes "a") twoPorts) (init founded)
        [.reserve true, .record true, .reserve false, .attach true true, .record false,
          .attach false true] = some s ∧
      s.phase true = .attached 999 ∧ s.phase false = .attached 998 ∧
      Distinct (fun _ => bytes "a") twoPorts founded.members s := by
  refine ⟨_, rfl, by decide, by decide, ?_⟩
  have ran : run (step (fun _ => bytes "a") twoPorts) (init founded) [.reserve true, .record true,
    .reserve false, .attach true true, .record false, .attach false true] = some _ := rfl
  refine distinct_of_alone (ready_startAsPrimary _ _) twoPorts_new twoPorts_apart ?_ ran
  refine ⟨by simp [Alone, init], trivial, ?_, trivial, trivial, trivial, trivial⟩
  intro j
  cases j <;> decide

end Examples

end SisOp.Join
