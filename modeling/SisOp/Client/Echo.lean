import SisOp.Client.LocalChange
import SisOp.Client.Sessions

/-!
# What the watcher's events set off

`sync_local_change` and `rescan_local`, run for any events, next to the requests
they send. After a change has come in or gone out at a path, the events it causes
find the path settled.

Main result: `no_echo`, no event sends a request about a path that was installed,
deleted, uploaded or reconciled, until the user touches it.
-/

namespace SisOp

open Lib Std

inductive Echo.Request where
  | upload (name : Bytes)
  | delete (name : Bytes)
  deriving DecidableEq, Repr

def Echo.Request.name : Echo.Request → Bytes
  | upload name | delete name => name

namespace SyncDir

/-- What `sync_local_change` asks the server for, unless the path is in sync. -/
def request? (d : SyncDir) (name : Bytes) : Option Echo.Request :=
  match d.localFile name, d.base[name]? with
  | some here, base =>
    if base.any fun b => sameContent b here then none else some (.upload name)
  | none, some _ => some (.delete name)
  | none, none => none

/-- The saved state agrees with what is there. -/
def Settled (d : SyncDir) (name : Bytes) : Prop := d.request? name = none

/-- `install`, whatever modification time the file really gets. -/
def installAs (d : SyncDir) (name : Bytes) (temp : File) (mtime : Int64) (stamp : Stamp) :
    SyncDir :=
  let way := d.makeWay name temp stamp
  let placed := way.tree.put name { temp with mtime }
  ⟨placed.1, if placed.2 then way.base.insert name (temp.info name) else way.base.erase name⟩

end SyncDir

namespace Echo

/-! ## Events -/

/-- What the worker takes from its queue, and how the exchanges end. -/
inductive Event where
  | change (name : Bytes) (e : Exchange)
  | rescan (e : Bytes → Exchange)

/-- `sync_local_change`, next to the requests sent so far. -/
def change (w : Sides × List Request) (name : Bytes) (e : Exchange) : Sides × List Request :=
  ((syncLocalChange w.1 name e).1, w.2 ++ (w.1.dir.request? name).toList)

/-- The names `rescan_local` goes through. -/
def rescanNames (d : SyncDir) : List Bytes :=
  (Map.ofPairs ((d.localFiles.keys ++ d.base.keys).map fun name => (name, ()))).keys

def handle (w : Sides × List Request) : Event → Sides × List Request
  | .change name e => change w name e
  | .rescan e => (rescanNames w.1.dir).foldl (fun w name => change w name (e name)) w

/-- The events one after the other. -/
def watch (events : List Event) (s : Sides) : Sides × List Request := events.foldl handle (s, [])

/-- Some event leads to this path. -/
def Noticed (name : Bytes) (events : List Event) : Prop :=
  (∃ e, Event.change name e ∈ events) ∨ ∃ e, Event.rescan e ∈ events

/-- What has finished at the path: a received file was installed, a PushDelete
handled, a local change sent, or the path reconciled. -/
inductive Finished (p : Bytes) (s : Sides) : Sides → Prop
  | installed (temp : File) (mtime : Int64) (stamp : Stamp) :
    Finished p s { s with dir := s.dir.installAs p temp mtime stamp }
  | pushDeleted (stamp : Stamp) (valid : isValidPath p = true) :
    Finished p s { s with dir := Sessions.handlePush s.dir stamp (.delete p) }
  | sent (e : Exchange) (ok : (syncLocalChange s p e).2 = .ok) :
    Finished p s (syncLocalChange s p e).1
  | reconciled (there : Option FileInfo) (o : Outcome)
      (ok : (reconcileName (s.dir.localFile p) there o s p).2 = .ok) :
    Finished p s (reconcileName (s.dir.localFile p) there o s p).1

end Echo

/-! ## Settled paths -/

namespace SyncDir

variable {d d' : SyncDir} {p : Bytes} {f : File} {b : FileInfo}

theorem settled_of_absent (absent : d.tree.file? p = none) (forgotten : d.base[p]? = none) :
    d.Settled p := by
  rw [Settled, request?, localFile, absent, forgotten]
  rfl

theorem settled_of_recorded (present : d.tree.file? p = some f) (entry : d.base[p]? = some b)
    (same : sameContent b (d.fillHash p f) = true) : d.Settled p := by
  rw [Settled, request?, localFile, present, entry]
  simp only [Option.map_some, Option.any_some, same, if_true]

/-- The hash is taken over from an entry with the size and time of the file. -/
theorem fillHash_of_saved (entry : d.base[p]? = some b) (size : b.size = (f.info p).size)
    (mtime : b.mtimeNs = f.mtime) : d.fillHash p f = { f.info p with hash := b.hash } := by
  rw [fillHash, entry]
  exact if_pos ⟨size, mtime⟩

/-- What `local_file` found is recorded. -/
theorem settled_of_insert {here : FileInfo} (found : d.localFile p = some here)
    (tree : d'.tree = d.tree) (entry : d'.base[p]? = some here) : d'.Settled p := by
  obtain ⟨f, present, rfl⟩ := Option.map_eq_some_iff.mp found
  have times : (d.fillHash p f).size = (f.info p).size ∧ (d.fillHash p f).mtimeNs = f.mtime := by
    unfold fillHash
    split
    · split <;> exact ⟨rfl, rfl⟩
    · exact ⟨rfl, rfl⟩
  refine settled_of_recorded (tree ▸ present) entry (sameContent_iff.mpr ?_)
  rw [fillHash_of_saved entry times.1 times.2]
  exact ⟨rfl, times.1⟩

theorem settled_congr (file : d'.tree.file? p = d.tree.file? p)
    (entry : d'.base[p]? = d.base[p]?) : d'.Settled p ↔ d.Settled p := by
  have local_ : d'.localFile p = d.localFile p := by
    rw [localFile, localFile, file]
    exact congrArg (Option.map · _) (funext fun f => fillHash_congr entry f)
  rw [Settled, Settled, request?, request?, local_, entry]

/-- `install` settles the path, with the modification time set or not. -/
theorem settled_installAs (d : SyncDir) (p : Bytes) (temp : File) (mtime : Int64) (stamp : Stamp) :
    (d.installAs p temp mtime stamp).Settled p := by
  cases ok : ((d.makeWay p temp stamp).tree.put p { temp with mtime }).2 with
  | true =>
    have present : (d.installAs p temp mtime stamp).tree.file? p = some { temp with mtime } :=
      (FileTree.file?_put ok p).trans (if_pos rfl)
    have entry : (d.installAs p temp mtime stamp).base[p]? = some (temp.info p) := by
      rw [installAs]
      dsimp only
      rw [if_pos ok, Map.getElem?_insert, if_pos rfl]
    refine settled_of_recorded present entry (sameContent_iff.mpr ?_)
    rw [fillHash, entry]
    dsimp only
    split <;> exact ⟨rfl, rfl⟩
  | false =>
    -- Nothing can be stored where a directory is, or below a file.
    have absent : d.tree.file? p = none := by
      by_contra present
      obtain ⟨f, present⟩ := Option.ne_none_iff_exists'.mp present
      have stored := installable_of_present temp stamp present
      rw [FileTree.put_ok_iff.mpr (FileTree.put_ok_iff.mp stored)] at ok
      cases ok
    have way : d.makeWay p temp stamp = d := by
      rw [makeWay, unsynced, localFile, absent]
      rfl
    refine settled_of_absent ?_ ?_
    · rw [installAs, way]
      dsimp only
      rw [way] at ok
      rw [FileTree.put_of_fail ok]
      exact absent
    · rw [installAs]
      dsimp only
      rw [ok, if_neg Bool.false_ne_true, Map.getElem?_erase, if_pos rfl]

end SyncDir

/-! ## One event -/

namespace Echo

variable {s s' : Sides} {w : Sides × List Request} {p q : Bytes} {events : List Event}

theorem syncLocalChange_of_settled (settled : s.dir.Settled q) (e : Exchange) :
    syncLocalChange s q e = (s, .ok) := by
  unfold SyncDir.Settled SyncDir.request? at settled
  unfold syncLocalChange
  cases here : s.dir.localFile q with
  | none =>
    cases base : s.dir.base[q]? with
    | none => rfl
    | some b =>
      rw [here, base] at settled
      cases settled
  | some h =>
    rw [here] at settled
    dsimp only at settled ⊢
    split at settled
    · rename_i same
      rw [if_pos same]
    · cases settled

/-- A change at one path leaves the files and the saved state of the others. -/
theorem syncLocalChange_frame (s : Sides) (e : Exchange) (other : p ≠ q) :
    (syncLocalChange s q e).1.dir.tree = s.dir.tree ∧
      (syncLocalChange s q e).1.dir.base[p]? = s.dir.base[p]? := by
  unfold syncLocalChange
  split
  · split
    · exact ⟨rfl, rfl⟩
    · dsimp only
      split
      · exact ⟨rfl, by rw [Map.getElem?_insert, if_neg other]⟩
      · exact ⟨rfl, rfl⟩
  · dsimp only
    split
    · exact ⟨rfl, rfl⟩
    · exact ⟨rfl, by rw [Map.getElem?_erase, if_neg other]⟩
  · exact ⟨rfl, rfl⟩

theorem name_request? {d : SyncDir} {r : Request} (asked : d.request? q = some r) : r.name = q := by
  unfold SyncDir.request? at asked
  split at asked
  · split at asked <;> cases asked
    rfl
  · cases asked
    rfl
  · cases asked

/-- The path stays as it was, and nothing was asked about it. -/
structure Quiet (p : Bytes) (s : Sides) (w : Sides × List Request) : Prop where
  settled : w.1.dir.Settled p
  entry : w.1.dir.base[p]? = s.dir.base[p]?
  requests : ∀ r ∈ w.2, r.name ≠ p

theorem Quiet.change (quiet : Quiet p s w) (q : Bytes) (e : Exchange) :
    Quiet p s (change w q e) := by
  by_cases other : p = q
  · subst other
    have idle := syncLocalChange_of_settled quiet.settled e
    have none_ : w.1.dir.request? p = none := quiet.settled
    rw [Echo.change, idle, none_]
    exact ⟨quiet.settled, quiet.entry, by simpa using quiet.requests⟩
  · obtain ⟨tree, base⟩ := syncLocalChange_frame w.1 e other
    refine ⟨?_, base.trans quiet.entry, fun r mem => ?_⟩
    · exact (SyncDir.settled_congr (congrArg (·.file? p) tree) base).mpr quiet.settled
    · rcases List.mem_append.mp mem with old | new
      · exact quiet.requests r old
      · rw [name_request? (Option.mem_toList.mp new)]
        exact Ne.symm other

theorem Quiet.handle (quiet : Quiet p s w) (event : Event) : Quiet p s (handle w event) := by
  cases event with
  | change q e => exact quiet.change q e
  | rescan e =>
    rw [Echo.handle]
    generalize rescanNames w.1.dir = names
    induction names generalizing w with
    | nil => exact quiet
    | cons name names ih => exact ih (quiet.change name (e name))

/-- An event that leads to settled paths only does nothing. -/
theorem handle_of_settled {event : Event} (settled : ∀ q, Noticed q [event] → s.dir.Settled q) :
    handle (s, []) event = (s, []) := by
  have still : ∀ q e, s.dir.Settled q → change (s, []) q e = (s, []) := by
    intro q e here
    have none_ : s.dir.request? q = none := here
    rw [change, syncLocalChange_of_settled here, none_]
    rfl
  cases event with
  | change q e => exact still q e (settled q (.inl ⟨e, List.mem_singleton_self _⟩))
  | rescan e =>
    have all : ∀ q, s.dir.Settled q := fun q => settled q (.inr ⟨e, List.mem_singleton_self _⟩)
    rw [handle]
    generalize rescanNames s.dir = names
    induction names with
    | nil => rfl
    | cons name names ih =>
      rw [List.foldl_cons, still name _ (all name)]
      exact ih

/-! ## Runs -/

theorem Quiet.watch (quiet : Quiet p s w) : Quiet p s (events.foldl Echo.handle w) := by
  induction events generalizing w with
  | nil => exact quiet
  | cons event events ih => exact ih (quiet.handle event)

theorem watch_of_settled (settled : ∀ q, Noticed q events → s.dir.Settled q) :
    watch events s = (s, []) := by
  rw [watch]
  induction events with
  | nil => rfl
  | cons event events ih =>
    have first : ∀ q, Noticed q [event] → s.dir.Settled q := by
      rintro q (⟨e, mem⟩ | ⟨e, mem⟩)
      · exact settled q (.inl ⟨e, List.mem_singleton.mp mem ▸ List.mem_cons_self⟩)
      · exact settled q (.inr ⟨e, List.mem_singleton.mp mem ▸ List.mem_cons_self⟩)
    rw [List.foldl_cons, handle_of_settled first]
    refine ih fun q noticed => settled q ?_
    exact noticed.imp (fun ⟨e, mem⟩ => ⟨e, List.mem_cons_of_mem _ mem⟩)
      fun ⟨e, mem⟩ => ⟨e, List.mem_cons_of_mem _ mem⟩

/-! ## What settles a path -/

theorem settled_of_removed {d : SyncDir} (absent : s.dir.localFile p = none)
    (tree : d.tree = s.dir.tree) (forgotten : d.base[p]? = none) : d.Settled p :=
  SyncDir.settled_of_absent (tree ▸ Option.map_eq_none_iff.mp absent) forgotten

theorem settled_of_sent {e : Exchange} (ok : (syncLocalChange s p e).2 = .ok) :
    (syncLocalChange s p e).1.dir.Settled p := by
  unfold syncLocalChange at ok ⊢
  cases here : s.dir.localFile p with
  | some h =>
    rw [here] at ok
    dsimp only at ok ⊢
    split
    · rename_i same
      rw [SyncDir.Settled, SyncDir.request?, here]
      exact if_pos same
    · rename_i changed
      rw [if_neg changed] at ok
      dsimp only at ok ⊢
      rw [if_pos ok]
      exact SyncDir.settled_of_insert here rfl (by rw [Map.getElem?_insert, if_pos rfl])
  | none =>
    rw [here] at ok
    cases base : s.dir.base[p]? with
    | none => exact settled_of_removed here rfl base
    | some b =>
      rw [base] at ok
      dsimp only at ok ⊢
      rw [ok, if_neg nofun]
      exact settled_of_removed here rfl (by rw [Map.getElem?_erase, if_pos rfl])

theorem settled_of_push {o : Outcome} {h : FileInfo} (here : s.dir.localFile p = some h)
    (ok : (reconcileName.push o p s h).2 = .ok) : (reconcileName.push o p s h).1.dir.Settled p := by
  unfold reconcileName.push at ok ⊢
  dsimp only at ok ⊢
  rw [if_pos ok]
  exact SyncDir.settled_of_insert here rfl (by rw [Map.getElem?_insert, if_pos rfl])

theorem settled_of_pull {o : Outcome} (ok : (reconcileName.pull o p s).2 = .ok) :
    (reconcileName.pull o p s).1.dir.Settled p := by
  unfold reconcileName.pull at ok ⊢
  split
  · rename_i temp result downloaded
    exact SyncDir.settled_installAs s.dir p temp temp.mtime o.stamp
  · rename_i result downloaded
    rw [downloaded] at ok
    dsimp only at ok
    unfold download at downloaded
    split at downloaded
    · split at downloaded <;> cases downloaded
      cases ok
    · cases downloaded
      cases ok
    · cases downloaded
      cases ok

theorem settled_of_reconciled {there : Option FileInfo} {o : Outcome}
    (ok : (reconcileName (s.dir.localFile p) there o s p).2 = .ok) :
    (reconcileName (s.dir.localFile p) there o s p).1.dir.Settled p := by
  cases here : s.dir.localFile p with
  | some h =>
    rw [here] at ok
    unfold reconcileName at ok ⊢
    cases there with
    | some t =>
      dsimp only at ok ⊢
      split at ok
      · rename_i same
        rw [if_pos same]
        exact SyncDir.settled_of_insert here rfl (by rw [Map.getElem?_insert, if_pos rfl])
      · rename_i differs
        rw [if_neg differs]
        split at ok
        · rename_i decision
          rw [if_pos decision]
          exact settled_of_push here ok
        · rename_i decision
          rw [if_neg decision]
          exact settled_of_pull ok
    | none =>
      dsimp only at ok ⊢
      split at ok
      · rename_i decision
        rw [if_pos decision]
        exact settled_of_push here ok
      · rename_i decision
        rw [if_neg decision]
        obtain ⟨f, present, -⟩ := Option.map_eq_some_iff.mp here
        refine SyncDir.settled_of_absent ?_ (by rw [Map.getElem?_erase, if_pos rfl])
        dsimp only
        rw [removeLocal_of_present present, FileTree.file?_delete, if_pos rfl]
  | none =>
    rw [here] at ok
    unfold reconcileName at ok ⊢
    cases there with
    | none => exact settled_of_removed here rfl (by rw [Map.getElem?_erase, if_pos rfl])
    | some t =>
      dsimp only at ok ⊢
      split at ok
      · rename_i decision
        rw [if_pos decision]
        dsimp only at ok ⊢
        rw [ok, if_neg nofun]
        exact settled_of_removed here rfl (by rw [Map.getElem?_erase, if_pos rfl])
      · rename_i decision
        rw [if_neg decision]
        exact settled_of_pull ok

theorem Finished.settled (finished : Finished p s s') : s'.dir.Settled p := by
  cases finished with
  | installed temp mtime stamp => exact SyncDir.settled_installAs ..
  | pushDeleted stamp valid =>
    refine SyncDir.settled_of_absent ?_ ?_
    · dsimp only
      rw [Sessions.handlePush, if_pos valid]
      dsimp only
      rw [FileTree.file?_delete, if_pos rfl]
    · dsimp only
      rw [Sessions.handlePush, if_pos valid]
      dsimp only
      rw [Map.getElem?_erase, if_pos rfl]
  | sent e ok => exact settled_of_sent ok
  | reconciled there o ok => exact settled_of_reconciled ok

/-- **No echo.** After something has finished at a path, no events send a request
about it or change its saved state; they send nothing and change nothing at all
when the other paths they lead to are in sync. -/
theorem no_echo (finished : Finished p s s') (events : List Event) :
    (∀ r ∈ (watch events s').2, r.name ≠ p) ∧
      (watch events s').1.dir.base[p]? = s'.dir.base[p]? ∧
      ((∀ q, q ≠ p → Noticed q events → s'.dir.Settled q) → watch events s' = (s', [])) := by
  have settled : s'.dir.Settled p := finished.settled
  have quiet : Quiet p s' (watch events s') :=
    Quiet.watch ⟨settled, rfl, fun r mem => (List.not_mem_nil mem).elim⟩
  refine ⟨quiet.requests, quiet.entry, fun others => watch_of_settled fun q noticed => ?_⟩
  by_cases same : q = p
  · exact same ▸ settled
  · exact others q same noticed

section Examples

/-- A file received for an empty directory, whose modification time could not be
set: two events of it and a scan send nothing about it, two events nothing at
all. -/
theorem no_echo_received : ∃ s : Sides,
    s.dir.tree.file? (bytes "x") = some { hereOne with mtime := 5 } ∧
      s.dir.base[bytes "x"]? = some (hereOne.info (bytes "x")) ∧
      (∀ r ∈ (watch [.change (bytes "x") .answered, .rescan fun _ => .answered] s).2,
        r.name ≠ bytes "x") ∧
      watch [.change (bytes "x") .answered, .change (bytes "x") .answered] s = (s, []) := by
  have finished : Finished (bytes "x") ⟨⟨∅, ∅⟩, ∅⟩ _ := .installed hereOne 5 noon
  refine ⟨_, by decide +kernel, by decide +kernel, (no_echo finished _).1,
    (no_echo finished _).2.2 ?_⟩
  rintro q other (⟨e, mem⟩ | ⟨e, mem⟩)
  · simp only [List.mem_cons, Event.change.injEq, List.not_mem_nil, or_false] at mem
    exact absurd (mem.elim And.left And.left) other
  · simp at mem

end Examples

end Echo

end SisOp
