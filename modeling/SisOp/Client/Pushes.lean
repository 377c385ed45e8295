import SisOp.Client.LocalChange
import SisOp.Client.Sessions

/-!
# A push against a reconcile

What a session does with one pushed change (`handle_push`, then
`sync_local_change`) next to what `reconcile` does of the same local file, base
and server copy.

Main result: `push_agrees_iff`, the two leave the same files exactly when a
PushDelete finds no unsynced edit and a PushFile of the base version finds the
base version.
-/

namespace SisOp.Sessions

open Lib Std

/-- The file the server has after the pushed change. -/
def Push.file? : Push → Option File
  | .file _ sent => some sent
  | .delete _ => none

/-- The two ways leave the same contents at every path: the path itself and the
versions kept as conflicted copies. -/
def Agrees (d : SyncDir) (server : UserDir) (push : Push) (stamp : Stamp) : Prop :=
  ∀ q, (syncLocalChange ⟨handlePush d stamp push, server⟩ push.name .answered).1.dir.content? q =
    (SisOp.reconcile ⟨d, server⟩ .answered fun _ => ⟨.answered, stamp⟩).1.dir.content? q

/-- A PushDelete finds no unsynced edit, and a PushFile of the version the base
has finds that version, or nothing and cannot be stored. -/
def Expected (d : SyncDir) (push : Push) (stamp : Stamp) : Prop :=
  match push with
  | .file name temp =>
    (d.base[name]?.any fun b => sameContent b (temp.info name)) = true →
      match d.tree.file? name with
      | some f => (d.base[name]?.any fun b => sameContent b (f.info name)) = true
      | none => d.installable name temp stamp = false
  | .delete name => ∀ f, d.tree.file? name = some f →
      (d.base[name]?.any fun b => sameContent b (f.info name)) = true

/-! ## Reconciling one path -/

section OnePath

variable {s : Sides} {name : Bytes} {here there : Option FileInfo} {o : Outcome}

/-- Only the base entry of the path itself matters to the files. -/
theorem tree_install_congr {d d' : SyncDir} (tree : d'.tree = d.tree)
    (base : d'.base[name]? = d.base[name]?) (temp : File) (stamp : Stamp) :
    (d'.install name temp stamp).tree = (d.install name temp stamp).tree := by
  have local_ : d'.localFile name = d.localFile name := by
    rw [SyncDir.localFile, SyncDir.localFile, tree]
    cases d.tree.file? name with
    | none => rfl
    | some f => rw [Option.map_some, Option.map_some, SyncDir.fillHash_congr base]
  have unsynced : d'.unsynced name (temp.info name) = d.unsynced name (temp.info name) := by
    rw [SyncDir.unsynced, SyncDir.unsynced, local_, base]
  have kept : (d'.keepCopy name stamp).tree = (d.keepCopy name stamp).tree := by
    rw [SyncDir.keepCopy, SyncDir.keepCopy, tree]
    split <;> first | rfl | exact tree
  rw [SyncDir.tree_install, SyncDir.tree_install, SyncDir.makeWay, SyncDir.makeWay, unsynced]
  split
  · rw [kept]
  · rw [tree]

theorem tree_reconcileName_congr {s' : Sides} (tree : s'.dir.tree = s.dir.tree)
    (base : s'.dir.base[name]? = s.dir.base[name]?) (server : s'.server = s.server) :
    (reconcileName here there o s' name).1.dir.tree =
      (reconcileName here there o s name).1.dir.tree := by
  have pushed : ∀ h, (reconcileName.push o name s' h).1.dir.tree =
      (reconcileName.push o name s h).1.dir.tree := by
    intro h
    unfold reconcileName.push
    dsimp only
    split <;> split <;> exact tree
  have pulled : (reconcileName.pull o name s').1.dir.tree =
    (reconcileName.pull o name s).1.dir.tree := by
    unfold reconcileName.pull
    rw [server]
    split
    · exact tree_install_congr tree base _ _
    · exact tree
  unfold reconcileName
  rw [base, server]
  cases here with
  | none =>
    cases there with
    | none => exact tree
    | some t =>
      dsimp only
      split
      · dsimp only
        split <;> exact tree
      · exact pulled
  | some h =>
    cases there with
    | none =>
      dsimp only
      split
      · exact pushed h
      · dsimp only
        rw [tree]
    | some t =>
      dsimp only
      split
      · exact tree
      · split
        · exact pushed h
        · exact pulled

/-- When nothing is to be done at the other paths, the loop does what its body
does at this one. -/
theorem tree_loop (name : Bytes) (s : Sides) {heres theres : Bytes → Option FileInfo}
    {stamp : Stamp} (absent : ∀ q, q ≠ name → (heres q = none ↔ theres q = none))
    (same : ∀ q, q ≠ name → ∀ h t, heres q = some h → theres q = some t → sameContent h t = true)
    {names : List Bytes} (nodup : names.Nodup) {s' : Sides} (tree : s'.dir.tree = s.dir.tree)
    (base : s'.dir.base[name]? = s.dir.base[name]?) (server : s'.server = s.server) :
    (reconcileLoop heres theres (fun _ => ⟨.answered, stamp⟩) names s').1.dir.tree =
      if name ∈ names then
        (reconcileName (heres name) (theres name) ⟨.answered, stamp⟩ s name).1.dir.tree
      else s.dir.tree := by
  have rest : ∀ {names : List Bytes}, name ∉ names → ∀ s',
      (reconcileLoop heres theres (fun _ => ⟨.answered, stamp⟩) names s').1.dir.tree =
        s'.dir.tree := by
    intro names
    induction names with
    | nil => exact fun _ _ => rfl
    | cons q names ih =>
      intro notMem s'
      have other : q ≠ name := fun eq => notMem (eq ▸ List.mem_cons_self)
      obtain ⟨kept, -, ok⟩ := reconcileName_of_agree (o := ⟨.answered, stamp⟩) (s := s')
        (absent q other) (same q other)
      rw [reconcileLoop, if_neg (fun stopped => by cases ok.symm.trans stopped)]
      exact (ih (fun mem => notMem (List.mem_cons_of_mem _ mem)) _).trans kept
  induction names generalizing s' with
  | nil => exact tree
  | cons q names ih =>
    obtain ⟨new, nodup⟩ := List.nodup_cons.mp nodup
    rw [reconcileLoop, if_neg (reconcileName_answered (heres q) (theres q) stamp s' q)]
    by_cases here : q = name
    · subst q
      rw [rest new, if_pos List.mem_cons_self]
      exact tree_reconcileName_congr tree base server
    · obtain ⟨kept, served, -⟩ := reconcileName_of_agree (o := ⟨.answered, stamp⟩) (s := s')
        (absent q here) (same q here)
      have did := reconcileName_did (heres q) (theres q) ⟨.answered, stamp⟩ s' q
      rw [ih nodup (kept.trans tree) ((did.base_of_ne (Ne.symm here)).trans base)
        (served.trans server)]
      simp only [List.mem_cons, Ne.symm here, false_or]

/-- `reconcile` when everything but one path is in sync. -/
theorem tree_reconcile_of_others (valid : ∀ p, s.server.tree.file? p ≠ none → isValidPath p = true)
    (validName : isValidPath name = true) (hashed : ∀ q, s.dir.HashSaved q)
    (others : ∀ q, q ≠ name → s.dir.content? q = (s.server.tree.file? q).map File.content)
    (stamp : Stamp) :
    (SisOp.reconcile s .answered fun _ => ⟨.answered, stamp⟩).1.dir.tree =
      (reconcileName (s.dir.localFile name) ((s.server.tree.file? name).map (·.info name))
        ⟨.answered, stamp⟩ s name).1.dir.tree := by
  have present : ∀ q, q ≠ name → (s.dir.tree.file? q = none ↔ s.server.tree.file? q = none) := by
    intro q other
    rw [← Option.map_eq_none_iff (f := File.content), ← SyncDir.content?, others q other,
      Option.map_eq_none_iff]
  have validHere : ∀ p, s.dir.tree.file? p ≠ none → isValidPath p = true := by
    intro p held
    by_cases here : p = name
    · exact here ▸ validName
    · exact valid p (mt (present p here).mpr held)
  have listed : ∀ q, s.dir.localFiles[q]? = s.dir.localFile q := getElem?_localFiles validHere
  have stored : ∀ q, (remoteFiles s.server)[q]? = (s.server.tree.file? q).map (·.info q) :=
    getElem?_remoteFiles valid
  rw [SisOp.reconcile]
  rw [tree_loop name s (fun q other => ?_) (fun q other h t here there => ?_)
    (Deletion.nodup_reconcileNames s) rfl rfl rfl, listed, stored]
  · split
    · rfl
    · -- a path that nobody has or knows
      rename_i unknown
      rw [mem_reconcileNames_iff validHere valid, not_or, not_or, not_not, not_not] at unknown
      have here : s.dir.localFile name = none := by
        rw [SyncDir.localFile, unknown.1.1, Option.map_none]
      have there : (s.server.tree.file? name).map (·.info name) = none := by
        rw [unknown.1.2, Option.map_none]
      rw [here, there]
      rfl
  · rw [listed, stored, SyncDir.localFile, Option.map_eq_none_iff, Option.map_eq_none_iff]
    exact present q other
  · rw [listed, SyncDir.localFile] at here
    rw [stored] at there
    obtain ⟨f, file, rfl⟩ := Option.map_eq_some_iff.mp here
    obtain ⟨g, held, rfl⟩ := Option.map_eq_some_iff.mp there
    have equal := others q other
    rw [SyncDir.content?, file, held] at equal
    rw [SyncDir.fillHash_eq (hashed q) file, sameContent_info_iff, Option.some.inj equal]
    exact ⟨rfl, rfl⟩

end OnePath

/-- `sync_local_change` writes nothing in sync_dir. -/
theorem tree_syncLocalChange (s : Sides) (name : Bytes) (e : Exchange) :
    (syncLocalChange s name e).1.dir.tree = s.dir.tree := by
  unfold syncLocalChange
  split
  · split
    · rfl
    · dsimp only
      split <;> rfl
  · dsimp only
    split <;> rfl
  · rfl

section Agree

variable {d : SyncDir} {server : UserDir} {name : Bytes} {stamp : Stamp}

theorem sameContent_info {f g : File} {p q : Bytes} (same : f.content = g.content) :
    sameContent (f.info p) (g.info q) = true := by
  rw [sameContent_info_iff, same]
  exact ⟨rfl, rfl⟩

/-- A PushDelete agrees with the loop body when it finds no unsynced edit. -/
theorem delete_agrees_iff (server : UserDir) (stamp : Stamp) (hashed : d.HashSaved name) :
    (∀ q, SyncDir.content? ⟨(d.tree.delete name).1, d.base.erase name⟩ q =
      (reconcileName (d.localFile name) none ⟨.answered, stamp⟩ ⟨d, server⟩ name).1.dir.content?
        q) ↔
    ∀ f, d.tree.file? name = some f →
      (d.base[name]?.any fun b => sameContent b (f.info name)) = true := by
  cases present : d.tree.file? name with
  | none =>
    refine ⟨fun _ f here => (by cases here), fun _ q => ?_⟩
    rw [SyncDir.localFile, present]
    simp only [Option.map_none, reconcileName, SyncDir.content?]
    rw [FileTree.file?_delete]
    split
    · subst q
      rw [present]
    · rfl
  | some f =>
    rw [SyncDir.localFile, present, Option.map_some, SyncDir.fillHash_eq hashed present]
    cases synced : d.base[name]?.any fun b => sameContent b (f.info name) with
    | true =>
      have push : shouldPush d.base[name]? (some (f.info name)) none = false := by
        obtain ⟨b, entry, -⟩ := (Option.any_eq_true _ _).mp synced
        simp only [shouldPush, synced]
        rw [entry]
        rfl
      refine ⟨fun _ g eq => Option.some.inj eq ▸ synced, fun _ q => ?_⟩
      simp only [reconcileName, push, Bool.false_eq_true, if_false, SyncDir.content?]
      rw [removeLocal_of_present present]
    | false =>
      have push : shouldPush d.base[name]? (some (f.info name)) none = true := by
        simp only [shouldPush, synced]
        cases d.base[name]? <;> rfl
      refine ⟨fun same => ?_, fun all => ?_⟩
      · have gone := same name
        have kept : (reconcileName (some (f.info name)) none ⟨.answered, stamp⟩ ⟨d, server⟩
            name).1.dir.tree = d.tree := by
          simp only [reconcileName, push, if_true, reconcileName.push]
          split <;> rfl
        rw [SyncDir.content?, SyncDir.content?, FileTree.file?_delete, if_pos rfl, kept,
          present] at gone
        cases gone
      · have synced' := all f rfl
        rw [synced] at synced'
        cases synced'

theorem pulled_eq_install {temp : File} (held : server.tree.file? name = some temp) :
    (reconcileName.pull ⟨.answered, stamp⟩ name ⟨d, server⟩).1.dir = d.install name temp stamp := by
  simp only [reconcileName.pull, download, held]

/-- Where there is no file, only a deletion here can tell the two apart. -/
theorem file_agrees_of_absent {temp : File} (held : server.tree.file? name = some temp)
    (present : d.tree.file? name = none) :
    (∀ q, (d.install name temp stamp).content? q = (reconcileName (d.localFile name)
      (some (temp.info name)) ⟨.answered, stamp⟩ ⟨d, server⟩ name).1.dir.content? q) ↔
    Expected d (.file name temp) stamp := by
  unfold Expected
  dsimp only
  rw [present]
  have unsynced : d.unsynced name (temp.info name) = false := by
    rw [SyncDir.unsynced, SyncDir.localFile, present]
    rfl
  rw [SyncDir.localFile, present, Option.map_none]
  cases base : d.base[name]?.any fun b => sameContent b (temp.info name) with
  | false =>
    have push : shouldPush d.base[name]? none (some (temp.info name)) = false := by
      simp only [shouldPush, base]
      cases d.base[name]? <;> rfl
    refine ⟨fun _ wrong => (by cases wrong), fun _ q => ?_⟩
    simp only [reconcileName, push, Bool.false_eq_true, if_false]
    rw [pulled_eq_install held]
  | true =>
    have push : shouldPush d.base[name]? none (some (temp.info name)) = true := by
      obtain ⟨b, entry, -⟩ := (Option.any_eq_true _ _).mp base
      simp only [shouldPush, base]
      rw [entry]
      rfl
    have tree : (reconcileName none (some (temp.info name)) ⟨.answered, stamp⟩ ⟨d, server⟩
        name).1.dir.tree = d.tree := by
      simp only [reconcileName, push, if_true]
      split <;> rfl
    simp only [SyncDir.content?, tree, true_implies]
    refine ⟨fun same => ?_, fun failed q => ?_⟩
    · -- the version deleted here is back
      by_contra stored
      have arrived := same name
      rw [(SyncDir.install_stores (Bool.not_eq_false _ ▸ stored)).1, present] at arrived
      cases arrived
    · rw [SyncDir.tree_install, FileTree.put_of_fail failed, SyncDir.makeWay, unsynced]
      rfl

theorem file_agrees_of_present {temp f : File} (hashed : d.HashSaved name)
    (held : server.tree.file? name = some temp) (present : d.tree.file? name = some f)
    (apart : fnv1a f.content = fnv1a temp.content → f.content.length = temp.content.length →
      f.content = temp.content) :
    (∀ q, (d.install name temp stamp).content? q = (reconcileName (d.localFile name)
      (some (temp.info name)) ⟨.answered, stamp⟩ ⟨d, server⟩ name).1.dir.content? q) ↔
    Expected d (.file name temp) stamp := by
  unfold Expected
  dsimp only
  rw [present]
  have stored := SyncDir.installable_of_present temp stamp present
  have arrived : (d.install name temp stamp).content? name = some temp.content := by
    rw [SyncDir.content?, (SyncDir.install_stores stored).1, Option.map_some]
  have here : d.content? name = some f.content := by rw [SyncDir.content?, present, Option.map_some]
  have unsynced : d.unsynced name (temp.info name) = (!sameContent (f.info name) (temp.info name) &&
      !d.base[name]?.any fun b => sameContent b (f.info name)) := by
    rw [SyncDir.unsynced, SyncDir.localFile, present, Option.map_some,
      SyncDir.fillHash_eq hashed present]
  rw [SyncDir.localFile, present, Option.map_some, SyncDir.fillHash_eq hashed present]
  dsimp only
  cases same : sameContent (f.info name) (temp.info name) with
  | true =>
    refine ⟨fun _ base => ?_, fun _ q => ?_⟩
    · obtain ⟨b, entry, equal⟩ := (Option.any_eq_true _ _).mp base
      rw [entry]
      rw [sameContent_comm] at same
      exact sameContent_trans equal same
    · rw [same] at unsynced
      simp only [reconcileName, same, if_true]
      by_cases at_ : q = name
      · subst q
        have equal := sameContent_info_iff.mp same
        rw [arrived, ← apart equal.1 equal.2]
        exact here.symm
      · rw [SyncDir.content?, SyncDir.content?]
        rcases SyncDir.file?_install_of_ne at_ with kept | ⟨-, -, changed⟩
        · rw [kept]
        · rw [unsynced] at changed
          cases changed
  | false =>
    cases base : d.base[name]?.any fun b => sameContent b (temp.info name) with
    | false =>
      have push : shouldPush d.base[name]? (some (f.info name))
        (some (temp.info name)) = false := by
        simp only [shouldPush, base]
        cases d.base[name]?.any fun b => sameContent b (f.info name) <;> rfl
      refine ⟨fun _ wrong => (by cases wrong), fun _ q => ?_⟩
      simp only [reconcileName, same, push, Bool.false_eq_true, if_false]
      rw [pulled_eq_install held]
    | true =>
      have local_ : (d.base[name]?.any fun b => sameContent b (f.info name)) = false := by
        by_contra synced
        obtain ⟨b, entry, toTemp⟩ := (Option.any_eq_true _ _).mp base
        rw [entry, Bool.not_eq_false, Option.any_some, sameContent_comm] at synced
        rw [sameContent_trans synced toTemp] at same
        cases same
      have push : shouldPush d.base[name]? (some (f.info name)) (some (temp.info name)) = true := by
        simp only [shouldPush, base, local_]
        rfl
      have tree : (reconcileName (some (f.info name)) (some (temp.info name)) ⟨.answered, stamp⟩
          ⟨d, server⟩ name).1.dir.tree = d.tree := by
        simp only [reconcileName, same, push, Bool.false_eq_true, if_false, if_true,
          reconcileName.push]
        split <;> rfl
      rw [local_]
      refine ⟨fun all => ?_, fun wrong => by cases wrong rfl⟩
      -- the edit is replaced by the version it was made on
      have at_ := all name
      rw [arrived, SyncDir.content?, tree, present, Option.map_some] at at_
      rw [sameContent_info (Option.some.inj at_).symm] at same
      cases same

/-- A PushFile agrees with the loop body unless it brings the base version to a
path that has another or none. -/
theorem file_agrees_iff {temp : File} (hashed : d.HashSaved name)
    (held : server.tree.file? name = some temp)
    (apart : ∀ f, d.tree.file? name = some f → fnv1a f.content = fnv1a temp.content →
      f.content.length = temp.content.length → f.content = temp.content) :
    (∀ q, (d.install name temp stamp).content? q = (reconcileName (d.localFile name)
      (some (temp.info name)) ⟨.answered, stamp⟩ ⟨d, server⟩ name).1.dir.content? q) ↔
    Expected d (.file name temp) stamp := by
  cases present : d.tree.file? name with
  | none => exact file_agrees_of_absent held present
  | some f => exact file_agrees_of_present hashed held present (apart f present)

/-- **A push against a reconcile.** When everything else is in sync: handling
the push leaves the same files as reconciling with a server that has the pushed
state, exactly when the push finds what it can replace. -/
theorem push_agrees_iff {push : Push} (valid : ∀ p, server.tree.file? p ≠ none →
    isValidPath p = true)
    (validName : isValidPath push.name = true) (hashed : ∀ q, d.HashSaved q)
    (others : ∀ q, q ≠ push.name → d.content? q = (server.tree.file? q).map File.content)
    (held : server.tree.file? push.name = push.file?)
    (apart : ∀ f g, d.tree.file? push.name = some f → push.file? = some g →
      fnv1a f.content = fnv1a g.content → f.content.length = g.content.length →
        f.content = g.content) :
    Agrees d server push stamp ↔ Expected d push stamp := by
  have reconciled := tree_reconcile_of_others (s := ⟨d, server⟩) valid validName hashed others stamp
  cases push with
  | delete name =>
    have gone : server.tree.file? name = none := held
    rw [Expected, ← delete_agrees_iff server stamp (hashed name)]
    unfold Agrees
    simp only [SyncDir.content?, tree_syncLocalChange, reconciled, handlePush,
      show isValidPath name = true from validName, if_true, Push.name, gone, Option.map_none]
  | file name temp =>
    have stored : server.tree.file? name = some temp := held
    rw [← file_agrees_iff (hashed name) stored fun f present => apart f temp present rfl]
    unfold Agrees
    simp only [SyncDir.content?, tree_syncLocalChange, reconciled, handlePush,
      show isValidPath name = true from validName, if_true, Push.name, stored, Option.map_some]

end Agree

/-! ## A deletion pushed over an edit, and a change pushed over the base -/

section Examples

private theorem hashSaved_facing {here there saved : File}
    (distinct : saved.mtime = here.mtime → saved = here) (q : Bytes) :
    (facing here there ((∅ : ExtTreeMap Bytes FileInfo).insert (bytes "x")
      (saved.info (bytes "x")))).dir.HashSaved q := by
  intro f base present entry _ time
  have held := (file?_one here q).symm.trans present
  have saved' := (Map.getElem?_insert ..).symm.trans entry
  by_cases at_ : q = bytes "x"
  · rw [if_pos at_] at held saved'
    cases held
    cases saved'
    rw [distinct time]
    rfl
  · rw [if_neg at_] at held
    cases held

/-- The file `x`, edited here since the last sync, is removed when its deletion
is pushed; reconciling uploads it again. -/
theorem edit_removed_by_push :
    ¬∀ (d : SyncDir) (server : UserDir) (push : Push) (stamp : Stamp),
      (∀ p, server.tree.file? p ≠ none → isValidPath p = true) → isValidPath push.name = true →
      (∀ q, d.HashSaved q) →
      (∀ q, q ≠ push.name → d.content? q = (server.tree.file? q).map File.content) →
      server.tree.file? push.name = push.file? →
      (∀ f g, d.tree.file? push.name = some f → push.file? = some g →
        fnv1a f.content = fnv1a g.content → f.content.length = g.content.length →
          f.content = g.content) →
      Agrees d server push stamp := by
  intro claim
  let s := facing hereOne thereTwo ((∅ : ExtTreeMap Bytes FileInfo).insert (bytes "x")
    (thereTwo.info (bytes "x")))
  have agrees := claim s.dir ∅ (.delete (bytes "x")) noon (fun p held => ?_) (by decide)
    (hashSaved_facing (by decide)) (fun q other => ?_) (FileTree.file?_empty _) nofun
  · have differ : (syncLocalChange ⟨handlePush s.dir noon (.delete (bytes "x")), ∅⟩ (bytes "x")
          .answered).1.dir.content? (bytes "x") = none ∧
        (SisOp.reconcile ⟨s.dir, ∅⟩ .answered fun _ => ⟨.answered, noon⟩).1.dir.content?
          (bytes "x") = some [1] := by decide +kernel
    have same := agrees (bytes "x")
    exact nomatch differ.1.symm.trans (same.trans differ.2)
  · exact absurd (FileTree.file?_empty p) held
  · rw [SyncDir.content?, show s.dir.tree.file? q = none from (file?_one _ q).trans (if_neg other)]
    exact congrArg _ (FileTree.file?_empty q).symm

/-- The other session's new version of `x` replaces the one synced last. -/
theorem push_agrees_of_synced :
    Agrees (facing hereOne thereTwo ((∅ : ExtTreeMap Bytes FileInfo).insert (bytes "x")
        (hereOne.info (bytes "x")))).dir ((∅ : UserDir).put (bytes "x") thereTwo)
      (.file (bytes "x") thereTwo) noon := by
  let s := facing hereOne thereTwo ((∅ : ExtTreeMap Bytes FileInfo).insert (bytes "x")
    (hereOne.info (bytes "x")))
  have valid : ValidPaths (facing hereOne thereTwo ∅) :=
    validPaths_facing fun p mem => absurd mem ExtTreeMap.not_mem_empty
  have expected : Expected s.dir (.file (bytes "x") thereTwo) noon := by
    intro wrong
    exact absurd wrong (by decide +kernel)
  refine (push_agrees_iff valid.server (by decide) (hashSaved_facing fun _ => rfl)
    (fun q other => ?_) ((file?_one _ _).trans (if_pos rfl)) fun f g present arriving same _ =>
      ?_).mpr
      expected
  · rw [SyncDir.content?, show s.dir.tree.file? q = none from (file?_one _ q).trans (if_neg other)]
    exact congrArg _ ((file?_one thereTwo q).trans (if_neg other)).symm
  · have present := ((file?_one hereOne _).trans (if_pos rfl)).symm.trans present
    cases present
    cases arriving
    exact absurd same (by decide +kernel)

end Examples

end SisOp.Sessions
