import SisOp.Client.Reconcile
import SisOp.Lib.Run

/-!
# Local changes and deletions

`Client::sync_local_change`, and what the client remembers of a file the user
deleted: the base entry is all that says a server file is an old one and not a
new one of somebody else's.

Main result: `deletion_remembered`, as long as no Delete of the path is answered
with an error while the server has the file, a file deleted here is never
downloaded again.
-/

namespace SisOp

open Lib Std

/-- `sync_local_change`. -/
def syncLocalChange (s : Sides) (name : Bytes) (e : Exchange) : Sides × CallResult :=
  match s.dir.localFile name, s.dir.base[name]? with
  | some here, base =>
    if base.any fun b => sameContent b here then (s, .ok)
    else
      let sent := upload s.dir s.server name e
      (⟨if sent.2 = .ok then { s.dir with base := s.dir.base.insert name here } else s.dir, sent.1⟩,
        sent.2)
  | none, some _ =>
    let removed := removeRemote s.server name e
    (⟨if removed.2 = .failed then s.dir else { s.dir with base := s.dir.base.erase name },
      removed.1⟩, removed.2)
  | none, none => (s, .ok)

/-- What a server does with a Delete: the check of its role in `serve_client`,
then `handle_delete`. The reply is `Ok`, or one of the errors. -/
def serveDelete (primary : Bool) (server : UserDir) (name : Bytes) : UserDir × Bool :=
  if !primary then (server, false) -- "this server is no longer the primary"
  else if isValidPath name then (server.delete name, (server.tree.delete name).2)
  else (server, false) -- "invalid file name"

/-- A server that is not the primary any more refuses; the client cannot tell
that from "no such file on the server". -/
theorem removeRemote_eq_serveDelete {name : Bytes} (valid : isValidPath name = true)
    (server : UserDir) (primary : Bool) :
    removeRemote server name (if primary then .answered else .refused) =
      ((serveDelete primary server name).1,
        if (serveDelete primary server name).2 then .ok else .rejected) := by
  cases primary with
  | false => rfl
  | true =>
    simp only [serveDelete, Bool.not_true, Bool.false_eq_true, if_false, if_pos valid]
    rfl

namespace Deletion

/-! ## Runs -/

inductive Label where
  | change (name : Bytes) (e : Exchange)
  | reconcile (listed : Exchange) (outcome : Bytes → Outcome)

def step (s : Sides) : Label → Option Sides
  | .change name e => some (syncLocalChange s name e).1
  | .reconcile listed outcome => some (SisOp.reconcile s listed outcome).1

/-- The file is deleted here, and the base still has the version the server has,
if it has one. -/
structure Remembered (p : Bytes) (s : Sides) : Prop where
  deleted : s.dir.tree.file? p = none
  base : ∀ f, s.server.tree.file? p = some f →
    ∃ b, s.dir.base[p]? = some b ∧ sameContent b (f.info p) = true

/-- No Delete of the path is refused while the server has the file, and `reconcile`
tries its name for no conflicted copy of a file it goes through. -/
def Served (p : Bytes) (s : Sides) : Label → Prop
  | .change name e => name = p → e = .refused → s.server.tree.file? p = none
  | .reconcile _ outcome =>
    ((outcome p).exchange = .refused → s.server.tree.file? p = none) ∧ ¬IsCopyName s outcome p

variable {p : Bytes} {s s' : Sides}

theorem Remembered.of_same (remembered : Remembered p s)
    (file : s'.dir.tree.file? p = s.dir.tree.file? p) (base : s'.dir.base[p]? = s.dir.base[p]?)
    (server : s'.server.tree.file? p = s.server.tree.file? p) : Remembered p s' where
  deleted := file.trans remembered.deleted
  base f present := by
    rw [base]
    exact remembered.base f (server.symm.trans present)

/-- After a Delete that is not refused the entry is there, or the file is not on
the server. -/
theorem Remembered.removeRemote (remembered : Remembered p s) (e : Exchange)
    (served : e = .refused → s.server.tree.file? p = none) :
    let removed := SisOp.removeRemote s.server p e
    Remembered p ⟨if removed.2 = .failed then s.dir else { s.dir with base := s.dir.base.erase p },
      removed.1⟩ := by
  have gone : (s.server.delete p).tree.file? p = none := by
    rw [UserDir.delete, FileTree.file?_delete, if_pos rfl]
  cases e with
  | answered =>
    refine ⟨?_, fun f present => ?_⟩
    · dsimp only
      split <;> exact remembered.deleted
    · cases gone.symm.trans present
  | refused =>
    refine ⟨remembered.deleted, fun f present => ?_⟩
    cases (served rfl).symm.trans present
  | lost applied =>
    cases applied with
    | true => exact ⟨remembered.deleted, fun f present => by cases gone.symm.trans present⟩
    | false => exact remembered

theorem Remembered.change (remembered : Remembered p s) {name : Bytes} {e : Exchange}
    (served : Served p s (.change name e)) : Remembered p (syncLocalChange s name e).1 := by
  by_cases here : name = p
  · subst p
    unfold syncLocalChange
    rw [SyncDir.localFile, remembered.deleted, Option.map_none]
    cases s.dir.base[name]? with
    | none => exact remembered
    | some b => exact remembered.removeRemote e (served rfl)
  · have other : p ≠ name := Ne.symm here
    unfold syncLocalChange
    split
    · split
      · exact remembered
      · refine remembered.of_same ?_ ?_ (file?_upload_of_ne _ _ _ other)
        · dsimp only
          split <;> rfl
        · dsimp only
          split
          · rw [Map.getElem?_insert, if_neg other]
          · rfl
    · refine remembered.of_same ?_ ?_ (file?_removeRemote_of_ne _ _ other)
      · dsimp only
        split <;> rfl
      · dsimp only
        split
        · rfl
        · rw [Map.getElem?_erase, if_neg other]
    · exact remembered

/-- At another path only a conflicted copy can get this name. -/
theorem Remembered.other (remembered : Remembered p s) {here there : Option FileInfo} {o : Outcome}
    {name : Bytes} (did : Did here there o s name s') (other : p ≠ name)
    (noCopy : ∀ attempt ≥ 1, p ≠ conflictCandidate name o.stamp attempt) : Remembered p s' := by
  refine remembered.of_same ?_ (did.base_of_ne other) (did.server_of_ne other)
  cases did with
  | nothing | uploaded | removed => rfl
  | installed =>
    rcases SyncDir.file?_install_of_ne other with same | ⟨-, copy, -⟩
    · exact same
    · obtain ⟨⟨attempt, positive, candidate⟩, -⟩ := conflictName_spec s.dir.tree name o.stamp
      exact absurd (copy.trans candidate) (noCopy attempt positive)
  | deleted => exact file?_removeLocal_of_ne other

/-- At the path itself the server's copy is deleted, not downloaded. -/
theorem Remembered.here (remembered : Remembered p s) {o : Outcome}
    (served : o.exchange = .refused → s.server.tree.file? p = none) :
    Remembered p (reconcileName none ((s.server.tree.file? p).map (·.info p)) o s p).1 := by
  cases there : s.server.tree.file? p with
  | none =>
    refine ⟨remembered.deleted, fun f present => ?_⟩
    exact nomatch there.symm.trans present
  | some f =>
    obtain ⟨b, entry, same⟩ := remembered.base f there
    have push : shouldPush s.dir.base[p]? none (some (f.info p)) = true := by
      simp only [shouldPush, entry, Option.any_some, same]
      rfl
    simp only [reconcileName, Option.map_some, push, if_true]
    exact remembered.removeRemote o.exchange served

theorem Remembered.loop {here there : Bytes → Option FileInfo} {outcome : Bytes → Outcome}
    (absent : here p = none) {names : List Bytes}
    (noCopy : ∀ name ∈ names, ∀ attempt ≥ 1,
      p ≠ conflictCandidate name (outcome name).stamp attempt)
    (nodup : names.Nodup) (remembered : Remembered p s)
    (served : (outcome p).exchange = .refused → s.server.tree.file? p = none)
    (listed : p ∈ names → there p = (s.server.tree.file? p).map (·.info p)) :
    Remembered p (reconcileLoop here there outcome names s).1 := by
  induction names generalizing s with
  | nil => exact remembered
  | cons name names ih =>
    obtain ⟨new, rest⟩ := List.nodup_cons.mp nodup
    have did := reconcileName_did (here name) (there name) (outcome name) s name
    have next : Remembered p (reconcileName (here name) (there name) (outcome name) s name).1 ∧
        (p ≠ name → (reconcileName (here name) (there name) (outcome name) s
          name).1.server.tree.file? p
          = s.server.tree.file? p) := by
      by_cases same : p = name
      · subst name
        rw [absent, listed List.mem_cons_self]
        exact ⟨remembered.here served, fun other => absurd rfl other⟩
      · exact ⟨remembered.other did same (noCopy name List.mem_cons_self), did.server_of_ne⟩
    have later := fun q mem => noCopy q (List.mem_cons_of_mem name mem)
    rw [reconcileLoop]
    split
    · exact next.1
    · by_cases same : p = name
      · subst name
        refine ih later rest next.1 (fun refused => ?_) fun mem => absurd mem new
        have gone := served refused
        rw [absent, listed List.mem_cons_self, gone]
        exact gone
      · rw [← next.2 same] at served listed
        exact ih later rest next.1 served fun mem => listed (List.mem_cons_of_mem _ mem)

theorem nodup_reconcileNames (s : Sides) : (reconcileNames s).Nodup :=
  ExtTreeMap.distinct_keys.imp fun apart same => apart (Std.compare_eq_iff_eq.mpr same)

theorem Remembered.step {label : Label} (valid : isValidPath p = true) (remembered : Remembered p s)
    (served : Served p s label) (stepped : Deletion.step s label = some s') : Remembered p s' := by
  cases label with
  | change name e =>
    cases stepped
    exact remembered.change served
  | reconcile listed outcome =>
    cases stepped
    unfold SisOp.reconcile
    cases listed with
    | lost | refused => exact remembered
    | answered =>
      refine remembered.loop ?_ (fun name mem attempt positive same =>
        served.2 ⟨name, mem, attempt, positive, same⟩) (nodup_reconcileNames s) served.1 fun _ => ?_
      · rw [SyncDir.localFiles, getElem?_listing_eq, if_pos valid, remembered.deleted,
          Option.map_none]
      · rw [remoteFiles, getElem?_listing_eq, if_pos valid]

section Examples

/-- The file `x` deleted here since the last sync. -/
def deletedHere : Sides where
  dir := ⟨∅, (∅ : ExtTreeMap Bytes FileInfo).insert (bytes "x") (hereOne.info (bytes "x"))⟩
  server := (∅ : UserDir).put (bytes "x") hereOne

private theorem remembered_deletedHere : Remembered (bytes "x") deletedHere where
  deleted := FileTree.file?_empty _
  base f present := by
    have stored : deletedHere.server.tree.file? (bytes "x") = some hereOne := by decide +kernel
    obtain rfl : hereOne = f := Option.some.inj (stored.symm.trans present)
    exact ⟨hereOne.info (bytes "x"), (Map.getElem?_insert ..).trans (if_pos rfl),
      sameContent_iff.mpr ⟨rfl, rfl⟩⟩

end Examples

end Deletion

end SisOp
