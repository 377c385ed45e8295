import SisOp.Common.Protocol
import SisOp.Lib.Map

/-!
# What one server knows of its cluster

The state `server/cluster.cpp` keeps under `mutex_`, and each of its critical
sections as a function. The models of joining, replication and election run
these functions; what happens between two of them is theirs to say. `L` is the
type of connections.
-/

namespace SisOp

open Lib Std

def FIRST_ID : UInt32 := 1000

inductive Role where
  | joining | backup | primary
  deriving DecidableEq, Repr

/-- `upsert`: replace the first server with this id, or append. -/
def upsert (list : List ServerAddress) (server : ServerAddress) : List ServerAddress :=
  match list with
  | [] => [server]
  | existing :: rest =>
    if existing.id = server.id then server :: rest else existing :: upsert rest server

/-- The members of `Cluster`. -/
structure Cluster (L : Type) where
  self : ServerAddress
  role : Role
  primary : ServerAddress
  primaryKnown : Bool
  members : List ServerAddress
  lowestId : UInt32
  links : ExtTreeMap UInt32 L
  primaryLink : Option L
  buildingManifest : Bool
  coordinatorSeen : Bool

namespace Cluster

variable {L : Type}

/-- A server before it starts or joins a cluster. -/
def init (host : Bytes) (port : UInt16) : Cluster L where
  self := ⟨0, host, port⟩
  role := .joining
  primary := ⟨0, [], 0⟩
  primaryKnown := false
  members := []
  lowestId := 0
  links := ∅
  primaryLink := none
  buildingManifest := false
  coordinatorSeen := false

def startAsPrimary (c : Cluster L) : Cluster L :=
  let self := { c.self with id := FIRST_ID }
  { c with self, lowestId := FIRST_ID, role := .primary, primary := self, primaryKnown := true,
           members := [self] }

/-- `join`, once the server at the target answered `JoinOk`. -/
def join (c : Cluster L) (id primaryId : UInt32) (host : Bytes) (port : UInt16) : Cluster L :=
  let self := { c.self with id }
  let primary : ServerAddress := ⟨primaryId, host, port⟩
  { c with self, role := .backup, primary, primaryKnown := true, members := [primary, self] }

def addMember (c : Cluster L) (member : ServerAddress) : Cluster L :=
  { c with members := upsert c.members member
           lowestId := min (if c.lowestId = 0 then member.id else c.lowestId) member.id }

def removeMember (c : Cluster L) (id : UInt32) : Cluster L :=
  { c with members := c.members.filter fun m => m.id ≠ id }

/-- The id `handle_join` gives the server at an address: the one it had, else
the next lower one. -/
def assignId (c : Cluster L) (host : Bytes) (port : UInt16) : Cluster L × UInt32 :=
  let kept := c.members.foldl
    (fun id existing => if existing.host = host ∧ existing.port = port then existing.id else id) 0
  if kept = 0 then
    let lowest := c.members.foldl (fun lowest existing => min lowest existing.id) c.lowestId
    ({ c with lowestId := lowest }, lowest - 1)
  else (c, kept)

/-- The end of `attach_replica`: the link goes live. -/
def setLink (c : Cluster L) (id : UInt32) (link : L) : Cluster L :=
  { c with links := c.links.insert id link }

/-- The first half of `drop_link`. -/
def takeLink (c : Cluster L) (id : UInt32) : Cluster L := { c with links := c.links.erase id }

/-- `handle_replica_attach`, up to the manifest. -/
def replicaAttach (c : Cluster L) (conn : L) (primary : ServerAddress)
    (members : List ServerAddress) : Cluster L :=
  { c with links := if c.role = .primary then ∅ else c.links
           primaryLink := some conn, role := .backup, primary, primaryKnown := true
           coordinatorSeen := true, members := upsert members c.self, buildingManifest := true }

/-- `Membership` in `apply_replicated`. -/
def setMembers (c : Cluster L) (members : List ServerAddress) : Cluster L :=
  { c with members := upsert members c.self }

/-- The start of a round of `run_election`, and the members it asks. -/
def startRound (c : Cluster L) : Cluster L × List ServerAddress :=
  ({ c with primaryKnown := false, coordinatorSeen := false },
    c.members.filter fun member => c.self.id < member.id)

/-- The critical section of `become_primary`, and the members it announces itself to. -/
def becomePrimary (c : Cluster L) : Cluster L × List ServerAddress :=
  let members :=
    if c.primary.id = c.self.id then c.members
    else c.members.filter fun m => m.id ≠ c.primary.id
  ({ c with role := .primary, primary := c.self, primaryKnown := true, members
            lowestId := members.foldl (fun lowest member => min lowest member.id) c.self.id
            primaryLink := none },
    members.filter fun member => member.id ≠ c.self.id)

/-- The critical section of `handle_coordinator`, when the leader is not outranked. -/
def coordinator (c : Cluster L) (leader : ServerAddress) : Cluster L :=
  { c with links := if c.role = .primary then ∅ else c.links
           role := .backup, primary := leader, primaryKnown := true, coordinatorSeen := true
           members := upsert c.members leader }

end Cluster

/-! ## Member lists -/

section Upsert

variable {list : List ServerAddress} {server m : ServerAddress}

theorem mem_upsert_self : server ∈ upsert list server := by
  induction list with
  | nil => exact List.mem_singleton_self _
  | cons existing rest ih =>
    rw [upsert]
    split
    · exact List.mem_cons_self
    · exact List.mem_cons_of_mem _ ih

theorem mem_of_mem_upsert (mem : m ∈ upsert list server) : m = server ∨ m ∈ list := by
  induction list with
  | nil => exact .inl (List.mem_singleton.mp mem)
  | cons existing rest ih =>
    rw [upsert] at mem
    split at mem
    · rcases List.mem_cons.mp mem with rfl | mem
      · exact .inl rfl
      · exact .inr (List.mem_cons_of_mem _ mem)
    · rcases List.mem_cons.mp mem with rfl | mem
      · exact .inr List.mem_cons_self
      · exact (ih mem).imp_right (List.mem_cons_of_mem _)

theorem mem_upsert_of_ne (mem : m ∈ list) (other : m.id ≠ server.id) : m ∈ upsert list server := by
  induction list with
  | nil => cases mem
  | cons existing rest ih =>
    rw [upsert]
    rcases List.mem_cons.mp mem with rfl | mem
    · rw [if_neg other]
      exact List.mem_cons_self
    · split
      · exact List.mem_cons_of_mem _ mem
      · exact List.mem_cons_of_mem _ (ih mem)

/-- The ids of the list are kept, and the new one is there. -/
theorem exists_id_upsert {id : UInt32} :
    (∃ m ∈ upsert list server, m.id = id) ↔ id = server.id ∨ ∃ m ∈ list, m.id = id := by
  constructor
  · rintro ⟨m, mem, rfl⟩
    rcases mem_of_mem_upsert mem with rfl | mem
    · exact .inl rfl
    · exact .inr ⟨m, mem, rfl⟩
  · rintro (rfl | ⟨m, mem, rfl⟩)
    · exact ⟨server, mem_upsert_self, rfl⟩
    · by_cases same : m.id = server.id
      · exact ⟨server, mem_upsert_self, same.symm⟩
      · exact ⟨m, mem_upsert_of_ne mem same, rfl⟩

end Upsert

/-! ## The lowest id -/

theorem le_foldl_min (list : List ServerAddress) (init bound : UInt32) :
    bound ≤ list.foldl (fun lowest member => min lowest member.id) init ↔
      bound ≤ init ∧ ∀ m ∈ list, bound ≤ m.id := by
  induction list generalizing init with
  | nil => simp
  | cons m rest ih => simp only [List.foldl_cons, ih, Std.le_min_iff,
      List.forall_mem_cons, and_assoc]

theorem foldl_min_le_init (list : List ServerAddress) (init : UInt32) :
    list.foldl (fun lowest member => min lowest member.id) init ≤ init :=
  ((le_foldl_min list init _).mp (Std.le_refl _)).1

theorem foldl_min_le (list : List ServerAddress) (init : UInt32) {m : ServerAddress}
    (mem : m ∈ list) : list.foldl (fun lowest member => min lowest member.id) init ≤ m.id :=
  ((le_foldl_min list init _).mp (Std.le_refl _)).2 m mem

/-- When no member is below the lowest id recorded, the fold gives it back. -/
theorem foldl_min_eq {list : List ServerAddress} {init : UInt32}
    (above : ∀ m ∈ list, init ≤ m.id) :
    list.foldl (fun lowest member => min lowest member.id) init = init :=
  Std.le_antisymm (foldl_min_le_init list init)
    ((le_foldl_min list init init).mpr ⟨Std.le_refl _, above⟩)

theorem one_le_iff_pos {id : UInt32} : 1 ≤ id ↔ 0 < id := by
  rw [UInt32.le_iff_toNat_le, UInt32.lt_iff_toNat_lt]
  rfl

theorem pred_lt {id : UInt32} (positive : 0 < id) : id - 1 < id := by grind

/-! ## Critical sections -/

namespace Cluster

variable {L : Type} {c : Cluster L}

/-- The id found for an address: that of a member there, or the initial one. -/
theorem foldl_kept (list : List ServerAddress) (host : Bytes) (port : UInt16) (init : UInt32) :
    (∀ m ∈ list, ¬(m.host = host ∧ m.port = port)) ∧
        list.foldl (fun id existing =>
          if existing.host = host ∧ existing.port = port then existing.id else id) init = init ∨
      ∃ m ∈ list, (m.host = host ∧ m.port = port) ∧
        list.foldl (fun id existing =>
          if existing.host = host ∧ existing.port = port then existing.id else id) init = m.id := by
  induction list generalizing init with
  | nil => exact .inl ⟨fun m mem => (List.not_mem_nil mem).elim, rfl⟩
  | cons first rest ih =>
    rw [List.foldl_cons]
    rcases ih (if first.host = host ∧ first.port = port then first.id else init) with
      ⟨elsewhere, same⟩ | ⟨m, mem, here, same⟩
    · rw [same]
      split
      · rename_i here
        exact .inr ⟨first, List.mem_cons_self, here, rfl⟩
      · rename_i away
        exact .inl ⟨List.forall_mem_cons.mpr ⟨away, elsewhere⟩, rfl⟩
    · exact .inr ⟨m, List.mem_cons_of_mem _ mem, here, same⟩

theorem assignId_of_new {host : Bytes} {port : UInt16}
    (new : ∀ m ∈ c.members, ¬(m.host = host ∧ m.port = port)) :
    c.assignId host port =
      let lowest := c.members.foldl (fun lowest existing => min lowest existing.id) c.lowestId
      ({ c with lowestId := lowest }, lowest - 1) := by
  rcases foldl_kept c.members host port 0 with ⟨-, kept⟩ | ⟨m, mem, here, -⟩
  · rw [assignId, kept, if_pos rfl]
  · exact absurd here (new m mem)

/-- An address that is no member's gets the id below the lowest. -/
theorem assignId_eq_of_new {host : Bytes} {port : UInt16}
    (new : ∀ m ∈ c.members, ¬(m.host = host ∧ m.port = port))
    (above : ∀ m ∈ c.members, c.lowestId ≤ m.id) :
    c.assignId host port = (c, c.lowestId - 1) := by
  rw [assignId_of_new new, foldl_min_eq above]

/-- The id of a member at an address is kept. -/
theorem assignId_of_member {host : Bytes} {port : UInt16}
    (present : ∃ m ∈ c.members, m.host = host ∧ m.port = port)
    (positive : ∀ m ∈ c.members, m.id ≠ 0) :
    ∃ m ∈ c.members, (m.host = host ∧ m.port = port) ∧ c.assignId host port = (c, m.id) := by
  rcases foldl_kept c.members host port 0 with ⟨elsewhere, -⟩ | ⟨m, mem, here, kept⟩
  · obtain ⟨m, mem, here⟩ := present
    exact absurd here (elsewhere m mem)
  · refine ⟨m, mem, here, ?_⟩
    rw [assignId, kept, if_neg (positive m mem)]

/-- Choosing an id changes the lowest id at most. -/
theorem assignId_keeps (c : Cluster L) (host : Bytes) (port : UInt16) :
    ∃ lowest, (c.assignId host port).1 = { c with lowestId := lowest } := by
  dsimp only [assignId]
  split
  · exact ⟨_, rfl⟩
  · exact ⟨c.lowestId, rfl⟩

theorem lowestId_addMember {m : ServerAddress} (positive : 0 < c.lowestId)
    (below : m.id < c.lowestId) : (c.addMember m).lowestId = m.id := by
  have known : c.lowestId ≠ 0 := by grind
  simp only [addMember, if_neg known]
  exact Std.le_antisymm (Std.min_le_right) (Std.le_min_iff.mpr ⟨by grind, Std.le_refl _⟩)

/-- A new primary keeps no other members than it had. -/
theorem mem_of_mem_becomePrimary {m : ServerAddress} (mem : m ∈ c.becomePrimary.1.members) :
    m ∈ c.members := by
  dsimp only [becomePrimary] at mem
  split at mem
  · exact mem
  · exact List.mem_of_mem_filter mem

theorem mem_removeMember {id : UInt32} {m : ServerAddress} :
    m ∈ (c.removeMember id).members ↔ m ∈ c.members ∧ m.id ≠ id := by
  rw [removeMember, List.mem_filter, decide_eq_true_eq]

end Cluster

end SisOp
