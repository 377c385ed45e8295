import SisOp.Client.LocalChange
import SisOp.Client.Sessions

/-!
# Convergence of a reconcile

A whole `reconcile` with nobody else around, then `sync_local_change` for what it
left in sync_dir. Each path is decided alone; what joins them is that a file
cannot have the name of a folder, on either side.

Main result: `reconcile_converges`, sync_dir, the server's copy and the saved
state end up the same, unless a changed file of one side has the name of a
folder of the other.
-/

namespace SisOp.Convergence

open Lib Std

/-- Every exchange is answered. -/
def answered (stamp : Bytes → Stamp) (name : Bytes) : Outcome := ⟨.answered, stamp name⟩

/-- `sync_local_change` for each of the paths. -/
def syncChanges (s : Sides) (changes : List Bytes) : Sides :=
  changes.foldl (fun s name => (syncLocalChange s name .answered).1) s

/-- A path has the same contents on both sides, and they are the saved ones. -/
structure Same (s : Sides) (p : Bytes) : Prop where
  content : s.dir.content? p = (s.server.tree.file? p).map File.content
  base : Sessions.Matches s.dir.base[p]? (s.dir.content? p)

/-- sync_dir, the server's copy and the saved state describe the same contents. -/
def Converged (s : Sides) : Prop := ∀ p, Same s p

/-- A name that a version can be kept under: that of a local change to a file the server
has differently, or that of a version kept where the server has a file. -/
inductive CopyName (s : Sides) (stamp : Bytes → Stamp) : Bytes → Prop
  | edit {n : Bytes} {g : File} (held : s.server.tree.file? n = some g)
      (unsynced : s.dir.unsynced n (g.info n) = true) (attempt : Nat) (positive : attempt ≥ 1) :
      CopyName s stamp (conflictCandidate n (stamp n) attempt)
  | copy {n : Bytes} (held : s.server.tree.file? n ≠ none) (new : s.dir.tree.file? n = none)
      (earlier : CopyName s stamp n) (attempt : Nat) (positive : attempt ≥ 1) :
      CopyName s stamp (conflictCandidate n (stamp n) attempt)

/-- A file with the name of a folder of the other side is the saved version, no
folder of the server has the name of a conflicted copy, and versions that compare
equal are equal. -/
structure Unclashed (s : Sides) (stamp : Bytes → Stamp) : Prop where
  here : ∀ p f r, s.dir.tree.file? p = some f → s.server.tree.file? r ≠ none → p ∈ dirs r →
    (s.dir.base[p]?.any fun b => sameContent b (s.dir.fillHash p f)) = true
  there : ∀ p g r, s.server.tree.file? p = some g → s.dir.tree.file? r ≠ none → p ∈ dirs r →
    (s.dir.base[p]?.any fun b => sameContent b (g.info p)) = true
  copy : ∀ q r, CopyName s stamp q → s.server.tree.file? r ≠ none → q ∉ dirs r
  told : ∀ p f g, s.dir.tree.file? p = some f → s.server.tree.file? p = some g →
    sameContent (s.dir.fillHash p f) (g.info p) = true → f.content = g.content

/-! ## Path order -/

/-- A folder comes before what it holds. -/
theorem compare_of_mem_dirs {p r : Bytes} (above : p ∈ dirs r) : compare p r = .lt := by
  obtain ⟨rest, rfl⟩ := mem_dirs_iff.mp above
  clear above
  induction p with
  | nil => rfl
  | cons c p ih =>
    rw [List.cons_append]
    change List.compareLex compare (c :: p) (c :: (p ++ slash :: rest)) = .lt
    rw [List.compareLex_cons_cons, ReflOrd.compare_self]
    exact ih

theorem ordered_reconcileNames (s : Sides) :
    (reconcileNames s).Pairwise fun a b => compare a b = .lt :=
  ExtTreeMap.ordered_keys

/-! ## One path -/

section Decision

variable {base here there : Option FileInfo} {h t : FileInfo}

/-- A local file that is pushed has changed. -/
theorem changed_of_push (push : shouldPush base (some h) there = true) :
    (base.any fun b => sameContent b h) = false := by
  by_contra unchanged
  rw [Bool.not_eq_false] at unchanged
  unfold shouldPush at push
  simp only [unchanged, Bool.not_true] at push
  cases there with
  | some t => cases other : base.any fun b => sameContent b t <;> simp [other] at push
  | none =>
    obtain ⟨b, rfl, -⟩ := (Option.any_eq_true _ _).mp unchanged
    simp at push

/-- A server file that is downloaded has changed. -/
theorem changed_of_pull (differs : ∀ h, here = some h → sameContent h t = false)
    (pull : shouldPush base here (some t) = false) :
    (base.any fun b => sameContent b t) = false := by
  by_contra unchanged
  rw [Bool.not_eq_false] at unchanged
  obtain ⟨b, rfl, same⟩ := (Option.any_eq_true _ _).mp unchanged
  unfold shouldPush at pull
  cases here with
  | none => simp [same] at pull
  | some h =>
    cases other : sameContent b h with
    | true =>
      have equal := sameContent_trans (sameContent_comm.symm.trans other) same
      rw [differs h rfl] at equal
      cases equal
    | false => simp [same, other] at pull

/-- A file deleted on the server because it is missing here is the saved version
there. -/
theorem unchanged_of_remove (push : shouldPush base none (some t) = true) :
    (base.any fun b => sameContent b t) = true := base_of_shouldPush push

/-- A file deleted here because the server has none is the saved version. -/
theorem unchanged_of_delete (pull : shouldPush base (some h) none = false) :
    (base.any fun b => sameContent b h) = true := by
  by_contra changed
  rw [Bool.not_eq_true] at changed
  unfold shouldPush at pull
  cases base <;> simp [changed] at pull

end Decision

/-- What the loop body does at a path when the server answers. -/
inductive Acted (here there : Option FileInfo) (stamp : Stamp) (s : Sides) (p : Bytes) :
    Sides → Prop
  | forgot (local_ : here = none) (remote : there = none) :
      Acted here there stamp s p { s with dir := { s.dir with base := s.dir.base.erase p } }
  | alike (h t : FileInfo) (local_ : here = some h) (remote : there = some t)
      (same : sameContent h t = true) :
      Acted here there stamp s p { s with dir := { s.dir with base := s.dir.base.insert p h } }
  | uploaded (h : FileInfo) (f : File) (local_ : here = some h)
      (present : s.dir.tree.file? p = some f)
      (changed : (s.dir.base[p]?.any fun b => sameContent b h) = false)
      (stored : (s.server.tree.put p f).2 = true) :
      Acted here there stamp s p
        ⟨{ s.dir with base := s.dir.base.insert p h }, s.server.put p f⟩
  | refused (h : FileInfo) (f : File) (local_ : here = some h)
      (present : s.dir.tree.file? p = some f)
      (changed : (s.dir.base[p]?.any fun b => sameContent b h) = false)
      (refused : (s.server.tree.put p f).2 = false) : Acted here there stamp s p s
  | removedThere (t : FileInfo) (local_ : here = none) (remote : there = some t)
      (unchanged : (s.dir.base[p]?.any fun b => sameContent b t) = true) :
      Acted here there stamp s p
        ⟨{ s.dir with base := s.dir.base.erase p }, s.server.delete p⟩
  | installed (t : FileInfo) (temp : File) (remote : there = some t)
      (present : s.server.tree.file? p = some temp)
      (changed : (s.dir.base[p]?.any fun b => sameContent b t) = false) :
      Acted here there stamp s p ⟨s.dir.install p temp stamp, s.server⟩
  | removedHere (h : FileInfo) (f : File) (local_ : here = some h) (remote : there = none)
      (present : s.dir.tree.file? p = some f)
      (unchanged : (s.dir.base[p]?.any fun b => sameContent b h) = true) :
      Acted here there stamp s p
        ⟨⟨removeLocal s.dir.tree p, s.dir.base.erase p⟩, s.server⟩

section OneName

variable {here there : Option FileInfo} {stamp : Stamp} {s s' : Sides} {p q : Bytes}

private theorem acted_push {h : FileInfo} (present : s.dir.tree.file? p ≠ none)
    (local_ : here = some h) (push : shouldPush s.dir.base[p]? here there = true) :
    Acted here there stamp s p (reconcileName.push ⟨.answered, stamp⟩ p s h).1 := by
  obtain ⟨f, file⟩ := Option.ne_none_iff_exists'.mp present
  rw [local_] at push
  have changed := changed_of_push push
  simp only [reconcileName.push, upload, file]
  cases stored : (s.server.tree.put p f).2 with
  | true => exact .uploaded h f local_ file changed stored
  | false =>
    have same : s.server.put p f = s.server := by
      unfold UserDir.put
      congr 1
      exact FileTree.put_of_fail stored
    rw [same]
    exact .refused h f local_ file changed stored

private theorem acted_pull {t : FileInfo} (present : s.server.tree.file? p ≠ none)
    (remote : there = some t) (differs : ∀ h, here = some h → sameContent h t = false)
    (pull : shouldPush s.dir.base[p]? here there = false) :
    Acted here there stamp s p (reconcileName.pull ⟨.answered, stamp⟩ p s).1 := by
  obtain ⟨temp, file⟩ := Option.ne_none_iff_exists'.mp present
  simp only [reconcileName.pull, download, file]
  rw [remote] at pull
  exact .installed t temp remote file (changed_of_pull differs pull)

theorem reconcileName_acted (onDisk : here ≠ none → s.dir.tree.file? p ≠ none)
    (stored : there ≠ none → s.server.tree.file? p ≠ none) :
    Acted here there stamp s p (reconcileName here there ⟨.answered, stamp⟩ s p).1 := by
  unfold reconcileName
  cases hereIs : here with
  | none =>
    cases thereIs : there with
    | none => exact .forgot rfl rfl
    | some t =>
      dsimp only
      split
      · rename_i push
        rw [if_neg (removeRemote_answered s.server p)]
        exact .removedThere t rfl rfl (unchanged_of_remove push)
      · rename_i pull
        exact acted_pull (stored (by rw [thereIs]; exact Option.some_ne_none t)) rfl
          (by intro h same; cases same) (Bool.not_eq_true _ ▸ pull)
  | some h =>
    have file := onDisk (by rw [hereIs]; exact Option.some_ne_none h)
    cases thereIs : there with
    | none =>
      dsimp only
      split
      · rename_i push
        exact acted_push file rfl push
      · rename_i pull
        obtain ⟨f, present⟩ := Option.ne_none_iff_exists'.mp file
        exact .removedHere h f rfl rfl present (unchanged_of_delete (Bool.not_eq_true _ ▸ pull))
    | some t =>
      dsimp only
      split
      · rename_i same
        exact .alike h t rfl rfl same
      · rename_i differ
        have differ : sameContent h t = false := Bool.not_eq_true _ ▸ differ
        split
        · rename_i push
          exact acted_push file rfl push
        · rename_i pull
          exact acted_pull (stored (by rw [thereIs]; exact Option.some_ne_none t)) rfl
            (fun _ eq => Option.some.inj eq ▸ differ) (Bool.not_eq_true _ ▸ pull)

/-- The other local files stay; a kept version takes a name that is free. -/
theorem Acted.file_of_ne (acted : Acted here there stamp s p s') (other : q ≠ p) :
    s'.dir.tree.file? q = s.dir.tree.file? q ∨ s.dir.tree.file? q = none ∧
      ∃ g, s.server.tree.file? p = some g ∧ s.dir.unsynced p (g.info p) = true ∧
        ∃ attempt ≥ 1, q = conflictCandidate p stamp attempt := by
  cases acted with
  | forgot | alike | uploaded | refused | removedThere => exact .inl rfl
  | installed t temp remote present =>
    rcases SyncDir.file?_install_of_ne other with same | ⟨free, copy, unsynced⟩
    · exact .inl same
    · obtain ⟨⟨attempt, positive, candidate⟩, -⟩ := conflictName_spec s.dir.tree p stamp
      exact .inr ⟨free, temp, present, unsynced, attempt, positive, copy.trans candidate⟩
  | removedHere => exact .inl (file?_removeLocal_of_ne other)

theorem Acted.base_of_ne (acted : Acted here there stamp s p s') (other : q ≠ p) :
    s'.dir.base[q]? = s.dir.base[q]? := by
  cases acted with
  | forgot | removedThere | removedHere => exact (Map.getElem?_erase ..).trans (if_neg other)
  | alike | uploaded => exact (Map.getElem?_insert ..).trans (if_neg other)
  | refused => rfl
  | installed => exact SyncDir.base_install_of_ne other

theorem Acted.server_of_ne (acted : Acted here there stamp s p s') (other : q ≠ p) :
    s'.server.tree.file? q = s.server.tree.file? q := by
  cases acted with
  | forgot | alike | refused | installed | removedHere => rfl
  | uploaded => exact FileTree.file?_put_of_ne _ _ other
  | removedThere => exact (FileTree.file?_delete ..).trans (if_neg other)

/-- No step leaves an empty folder. -/
theorem Acted.tight (acted : Acted here there stamp s p s') (valid : isValidPath p = true)
    (tight : s.dir.tree.Tight) (plain : s.dir.tree.Plain) :
    s'.dir.tree.Tight ∧ s'.dir.tree.Plain := by
  cases acted with
  | forgot | alike | uploaded | refused | removedThere => exact ⟨tight, plain⟩
  | installed t temp =>
    have way : (s.dir.makeWay p temp stamp).tree.Tight ∧
      (s.dir.makeWay p temp stamp).tree.Plain := by
      unfold SyncDir.makeWay SyncDir.keepCopy
      split
      · split
        · rename_i moved
          obtain ⟨⟨attempt, -, eq⟩, -⟩ := conflictName_spec s.dir.tree p stamp
          have siblings : Hierarchy.ancestors (conflictName s.dir.tree p stamp) =
              Hierarchy.ancestors p := by
            rw [eq]
            exact dirs_conflictCandidate valid stamp attempt
          exact ⟨tight.rename siblings moved, plain.rename moved⟩
        · exact ⟨tight, plain⟩
      · exact ⟨tight, plain⟩
    rw [SyncDir.tree_install]
    exact ⟨way.1.put p temp, way.2.put p temp⟩
  | removedHere h f local_ remote present =>
    dsimp only
    rw [removeLocal_of_present present]
    exact ⟨tight.delete plain p, plain.delete p⟩

end OneName

/-! ## What is written -/

/-- The paths whose file differs. -/
def written (before after : FileTree Bytes File) : List Bytes :=
  ((before.files ++ after.files).map Prod.fst).filter fun q => after.file? q ≠ before.file? q

theorem mem_written_iff {before after : FileTree Bytes File} {q : Bytes} :
    q ∈ written before after ↔ after.file? q ≠ before.file? q := by
  rw [written, List.mem_filter, decide_eq_true_eq, and_iff_right_iff_imp]
  intro differs
  rw [List.mem_map]
  cases now : after.file? q with
  | some f => exact ⟨(q, f), List.mem_append_right _ (FileTree.mem_files_iff.mpr now), rfl⟩
  | none =>
    cases was : before.file? q with
    | some f => exact ⟨(q, f), List.mem_append_left _ (FileTree.mem_files_iff.mpr was), rfl⟩
    | none => exact absurd (now.trans was.symm) differs

/-- The paths at which the loop changes sync_dir. -/
def loopWrites (here there : Bytes → Option FileInfo) (outcome : Bytes → Outcome) :
    List Bytes → Sides → List Bytes
  | [], _ => []
  | name :: names, s =>
    let one := reconcileName (here name) (there name) (outcome name) s name
    written s.dir.tree one.1.dir.tree ++
      if one.2 = .failed then [] else loopWrites here there outcome names one.1

/-- The paths `reconcile` writes in sync_dir. -/
def reconcileWrites (s : Sides) (outcome : Bytes → Outcome) : List Bytes :=
  loopWrites (s.dir.localFiles[·]?) ((remoteFiles s.server)[·]?) outcome (reconcileNames s) s

/-! ## The loop -/

/-- What the loop leaves of a path: in sync, or a kept version still to be
uploaded. -/
inductive Settled (kept : Bytes → Prop) (s : Sides) (p : Bytes) : Prop
  | same (same : Same s p)
  | copy (f : File) (kept : kept p) (present : s.dir.tree.file? p = some f)
      (absent : s.server.tree.file? p = none) (unsaved : s.dir.base[p]? = none)

/-- The paths still to come are as they were, up to kept versions where there was
no file; the others are settled. -/
structure Going (s₀ : Sides) (kept : Bytes → Prop) (rest : List Bytes) (s : Sides) : Prop where
  ordered : rest.Pairwise fun a b => compare a b = .lt
  tight : s.dir.tree.Tight
  plain : s.dir.tree.Plain
  file : ∀ q ∈ rest, s.dir.tree.file? q = s₀.dir.tree.file? q ∨
    s₀.dir.tree.file? q = none ∧ kept q
  base : ∀ q ∈ rest, s.dir.base[q]? = s₀.dir.base[q]?
  server : ∀ q ∈ rest, s.server.tree.file? q = s₀.server.tree.file? q
  settled : ∀ q, q ∉ rest → Settled kept s q

section Loop

variable {s₀ s s' : Sides} {stamp : Bytes → Stamp} {kept : Bytes → Prop} {p q : Bytes}
  {rest : List Bytes}

theorem Same.base_none (same : Same s q) (gone : s.dir.tree.file? q = none) :
    s.dir.base[q]? = none := by
  have matched := same.base
  rw [SyncDir.content?, gone, Option.map_none] at matched
  cases saved : s.dir.base[q]? with
  | none => rfl
  | some b =>
    rw [saved] at matched
    exact matched.elim

theorem Settled.server_none (settled : Settled kept s q) (gone : s.dir.tree.file? q = none) :
    s.server.tree.file? q = none := by
  cases settled with
  | same same =>
    have equal := same.content
    rw [SyncDir.content?, gone, Option.map_none] at equal
    exact Option.map_eq_none_iff.mp equal.symm
  | copy _ _ _ absent => exact absent

theorem Settled.of_same_file (settled : Settled kept s q)
    (file : s'.dir.tree.file? q = s.dir.tree.file? q) (base : s'.dir.base[q]? = s.dir.base[q]?)
    (server : s'.server.tree.file? q = s.server.tree.file? q) : Settled kept s' q := by
  cases settled with
  | same synced =>
    refine .same ⟨?_, ?_⟩
    · rw [SyncDir.content?, file, server]
      exact synced.content
    · rw [base, SyncDir.content?, file]
      exact synced.base
  | copy f kept present absent unsaved =>
    exact .copy f kept (file.trans present) (server.trans absent) (base.trans unsaved)

/-- A path where there was no file gets a kept version. -/
theorem Settled.of_new_file (settled : Settled kept s q) (gone : s.dir.tree.file? q = none)
    (written : s'.dir.tree.file? q ≠ s.dir.tree.file? q → kept q)
    (base : s'.dir.base[q]? = s.dir.base[q]?)
    (server : s'.server.tree.file? q = s.server.tree.file? q) : Settled kept s' q := by
  cases now : s'.dir.tree.file? q with
  | none => exact settled.of_same_file (now.trans gone.symm) base server
  | some f =>
    refine .copy f (written (by rw [now, gone]; nofun)) now
      (server.trans (settled.server_none gone)) (base.trans ?_)
    cases settled with
    | same synced => exact synced.base_none gone
    | copy _ _ _ _ unsaved => exact unsaved

/-- The path the loop is at comes before the others. -/
theorem Going.not_mem_of_above (going : Going s₀ kept (p :: rest) s) (above : q ∈ dirs p) :
    q ∉ p :: rest := by
  have before := compare_of_mem_dirs above
  intro mem
  rcases List.mem_cons.mp mem with rfl | later
  · rw [ReflOrd.compare_self] at before
    cases before
  · have after := (List.pairwise_cons.mp going.ordered).1 q later
    rw [OrientedOrd.eq_swap, after] at before
    cases before

/-- What is uploaded can be stored: a folder of that name would be older than the
file, and a file above it is gone. -/
theorem Going.uploadable (unclashed : Unclashed s₀ stamp) (going : Going s₀ kept (p :: rest) s)
    {f : File} (original : s₀.dir.tree.file? p = some f) (present : s.dir.tree.file? p = some f)
    (changed : (s₀.dir.base[p]?.any fun b => sameContent b (s₀.dir.fillHash p f)) = false) :
    s.server.tree.Free p := by
  have here : s.dir.tree.file? p ≠ none := by rw [present]; nofun
  rw [FileTree.free_iff_of_tight s.server.tight s.server.plain]
  constructor
  · intro q above
    exact (going.settled q (going.not_mem_of_above above)).server_none
      (FileTree.file?_above here above)
  · intro q below
    by_cases later : q ∈ p :: rest
    · rw [going.server q later]
      by_contra stored
      rw [unclashed.here p f q original stored below] at changed
      cases changed
    · exact (going.settled q later).server_none (FileTree.file?_below here below)

/-- What is downloaded can be stored. -/
theorem Going.installable (unclashed : Unclashed s₀ stamp)
    (copies : ∀ q, kept q → CopyName s₀ stamp q)
    (beside : ∀ q, CopyName s₀ stamp q → ∃ n, s₀.server.tree.file? n ≠ none ∧ dirs q = dirs n)
    (going : Going s₀ kept (p :: rest) s) {g : File} (stored : s₀.server.tree.file? p = some g)
    (changed : (s₀.dir.base[p]?.any fun b => sameContent b (g.info p)) = false) (stamp' : Stamp) :
    s.dir.installable p g stamp' = true := by
  have there : s₀.server.tree.file? p ≠ none := by rw [stored]; nofun
  have now : s.server.tree.file? p ≠ none := by rwa [going.server p List.mem_cons_self]
  cases present : s.dir.tree.file? p with
  | some f => exact SyncDir.installable_of_present g stamp' present
  | none =>
    have way : s.dir.makeWay p g stamp' = s.dir := by
      rw [SyncDir.makeWay, SyncDir.unsynced, SyncDir.localFile, present]
      rfl
    rw [SyncDir.installable, way, FileTree.put_ok_iff,
      FileTree.free_iff_of_tight going.tight going.plain]
    constructor
    · intro q above
      have gone := FileTree.file?_above now above
      cases going.settled q (going.not_mem_of_above above) with
      | same same =>
        have equal := same.content
        rw [gone, Option.map_none, SyncDir.content?, Option.map_eq_none_iff] at equal
        exact equal
      | copy f kept => exact absurd above (unclashed.copy q p (copies q kept) there)
    · intro q below
      by_contra lower
      have noCopy : ¬CopyName s₀ stamp q := by
        intro copy
        obtain ⟨n, held, siblings⟩ := beside q copy
        have above : p ∈ dirs n := siblings ▸ below
        exact there (FileTree.file?_above held above)
      by_cases later : q ∈ p :: rest
      · rcases going.file q later with same | ⟨-, kept⟩
        · rw [same] at lower
          rw [unclashed.there p g q stored lower below] at changed
          cases changed
        · exact noCopy (copies q kept)
      · cases going.settled q later with
        | same same =>
          have equal := same.content
          rw [FileTree.file?_below now below, Option.map_none, SyncDir.content?,
            Option.map_eq_none_iff] at equal
          exact lower equal
        | copy f kept => exact noCopy (copies q kept)

/-- At the path itself: the two sides and the saved state agree, or a version kept
earlier is still there. -/
theorem Going.settles (unclashed : Unclashed s₀ stamp)
    (copies : ∀ q, kept q → CopyName s₀ stamp q)
    (beside : ∀ q, CopyName s₀ stamp q → ∃ n, s₀.server.tree.file? n ≠ none ∧ dirs q = dirs n)
    (going : Going s₀ kept (p :: rest) s)
    (acted : Acted (s₀.dir.localFile p) ((s₀.server.tree.file? p).map (·.info p))
      (stamp p) s p s') :
    Settled kept s' p := by
  have file := going.file p List.mem_cons_self
  have base := going.base p List.mem_cons_self
  have server := going.server p List.mem_cons_self
  have original : ∀ {h}, s₀.dir.localFile p = some h →
      ∃ f, s₀.dir.tree.file? p = some f ∧ s.dir.tree.file? p = some f ∧
        s₀.dir.fillHash p f = h := by
    intro h local_
    obtain ⟨f, present, filled⟩ := Option.map_eq_some_iff.mp local_
    refine ⟨f, present, ?_, filled⟩
    rcases file with same | ⟨absent, -⟩
    · exact same.trans present
    · rw [present] at absent
      cases absent
  have leftover : s₀.dir.localFile p = none → s'.dir.tree.file? p = s.dir.tree.file? p →
      s'.server.tree.file? p = none → s'.dir.base[p]? = none → Settled kept s' p := by
    intro local_ stays gone unsaved
    cases now : s'.dir.tree.file? p with
    | none =>
      refine .same ⟨?_, ?_⟩
      · rw [SyncDir.content?, now, gone]
      · rw [unsaved, SyncDir.content?, now]
        trivial
    | some f =>
      refine .copy f ?_ now gone unsaved
      rcases file with same | ⟨-, kept⟩
      · rw [← stays, now] at same
        rw [SyncDir.localFile, ← same] at local_
        cases local_
      · exact kept
  cases acted with
  | forgot local_ remote =>
    refine leftover local_ rfl (server.trans (Option.map_eq_none_iff.mp remote)) ?_
    exact (Map.getElem?_erase ..).trans (if_pos rfl)
  | alike h t local_ remote same =>
    obtain ⟨f, present, now, filled⟩ := original local_
    obtain ⟨g, stored, info⟩ := Option.map_eq_some_iff.mp remote
    rw [← filled, ← info] at same
    have equal := unclashed.told p f g present stored same
    refine .same ⟨?_, ?_⟩
    · rw [SyncDir.content?, now, server, stored, Option.map_some, Option.map_some, equal]
    · rw [SyncDir.content?, now, Map.getElem?_insert, if_pos rfl, ← filled]
      obtain ⟨hash, size⟩ := sameContent_iff.mp same
      exact ⟨hash.trans (congrArg fnv1a equal.symm), size.trans
        (congrArg (fun c => (List.length c).toUInt64) equal.symm)⟩
  | uploaded h f local_ present changed stored =>
    obtain ⟨f', first, now, filled⟩ := original local_
    obtain rfl : f' = f := Option.some.inj (now.symm.trans present)
    rw [base, ← filled] at changed
    rw [SyncDir.fillHash_of_changed changed] at filled
    refine .same ⟨?_, ?_⟩
    · rw [SyncDir.content?, present]
      exact congrArg (Option.map File.content)
        ((FileTree.file?_put stored p).trans (if_pos rfl)).symm
    · rw [SyncDir.content?, present, Map.getElem?_insert, if_pos rfl, ← filled]
      exact Sessions.records_info p f'
  | refused h f local_ present changed refused =>
    obtain ⟨f', first, now, filled⟩ := original local_
    obtain rfl : f' = f := Option.some.inj (now.symm.trans present)
    rw [base, ← filled] at changed
    rw [FileTree.put_ok_iff.mpr (going.uploadable unclashed first present changed)] at refused
    cases refused
  | removedThere t local_ remote unchanged =>
    refine leftover local_ rfl ((FileTree.file?_delete ..).trans (if_pos rfl)) ?_
    exact (Map.getElem?_erase ..).trans (if_pos rfl)
  | installed t temp remote present changed =>
    obtain ⟨g, stored, info⟩ := Option.map_eq_some_iff.mp remote
    obtain rfl : g = temp := Option.some.inj (stored.symm.trans (server.symm.trans present))
    rw [base, ← info] at changed
    obtain ⟨file', saved⟩ := SyncDir.install_stores
      (going.installable unclashed copies beside stored changed (stamp p))
    refine .same ⟨?_, ?_⟩
    · rw [SyncDir.content?, file', present]
    · rw [saved, SyncDir.content?, file']
      exact Sessions.records_info p g
  | removedHere h f local_ remote present unchanged =>
    have gone : (removeLocal s.dir.tree p).file? p = none := by
      rw [removeLocal_of_present present, FileTree.file?_delete, if_pos rfl]
    refine .same ⟨?_, ?_⟩
    · rw [SyncDir.content?, gone, server, Option.map_eq_none_iff.mp remote]
    · rw [SyncDir.content?, gone, Map.getElem?_erase, if_pos rfl]
      trivial

/-- Only the file and its saved entry matter. -/
theorem unsynced_congr {d d' : SyncDir} (file : d.tree.file? p = d'.tree.file? p)
    (base : d.base[p]? = d'.base[p]?) (incoming : FileInfo) :
    d.unsynced p incoming = d'.unsynced p incoming := by
  have hashed : d.fillHash p = d'.fillHash p := by
    funext f
    rw [SyncDir.fillHash, SyncDir.fillHash, base]
  rw [SyncDir.unsynced, SyncDir.unsynced, SyncDir.localFile, SyncDir.localFile, file, base, hashed]

/-- One path of the loop. -/
theorem Going.step (valid : isValidPath p = true) (unclashed : Unclashed s₀ stamp)
    (copies : ∀ q, kept q → CopyName s₀ stamp q)
    (beside : ∀ q, CopyName s₀ stamp q → ∃ n, s₀.server.tree.file? n ≠ none ∧ dirs q = dirs n)
    (going : Going s₀ kept (p :: rest) s)
    (acted : Acted (s₀.dir.localFile p) ((s₀.server.tree.file? p).map (·.info p)) (stamp p) s p s')
    (writes : ∀ q, CopyName s₀ stamp q → s'.dir.tree.file? q ≠ s.dir.tree.file? q → kept q) :
    Going s₀ kept rest s' := by
  obtain ⟨first, ordered⟩ := List.pairwise_cons.mp going.ordered
  have other : ∀ q ∈ rest, q ≠ p := by
    rintro q mem rfl
    have before := first q mem
    rw [ReflOrd.compare_self] at before
    cases before
  have moved : ∀ q, q ≠ p → s'.dir.tree.file? q = s.dir.tree.file? q ∨
      s.dir.tree.file? q = none ∧ CopyName s₀ stamp q := by
    intro q different
    refine (acted.file_of_ne different).imp_right fun ⟨gone, g, held, unsynced, attempt, positive,
      eq⟩ => ⟨gone, ?_⟩
    rw [going.server p List.mem_cons_self] at held
    subst q
    rcases going.file p List.mem_cons_self with same | ⟨new, earlier⟩
    · refine .edit held ?_ attempt positive
      rwa [← unsynced_congr same (going.base p List.mem_cons_self)]
    · exact .copy (by rw [held]; nofun) new (copies p earlier) attempt positive
  obtain ⟨tight, plain⟩ := acted.tight valid going.tight going.plain
  constructor
  case ordered => exact ordered
  case tight => exact tight
  case plain => exact plain
  case file =>
    intro q mem
    rcases going.file q (List.mem_cons_of_mem _ mem) with same | copy
    · rcases moved q (other q mem) with stays | ⟨gone, name⟩
      · exact .inl (stays.trans same)
      · by_cases unwritten : s'.dir.tree.file? q = s.dir.tree.file? q
        · exact .inl (unwritten.trans same)
        · exact .inr ⟨same.symm.trans gone, writes q name unwritten⟩
    · exact .inr copy
  case base =>
    exact fun q mem => (acted.base_of_ne (other q mem)).trans
      (going.base q (List.mem_cons_of_mem _ mem))
  case server =>
    exact fun q mem => (acted.server_of_ne (other q mem)).trans
      (going.server q (List.mem_cons_of_mem _ mem))
  case settled =>
    intro q done
    by_cases here : q = p
    · subst q
      exact going.settles unclashed copies beside acted
    · have before := going.settled q fun mem => (List.mem_cons.mp mem).elim here done
      have base := acted.base_of_ne here
      have server := acted.server_of_ne here
      rcases moved q here with stays | ⟨gone, name⟩
      · exact before.of_same_file stays base server
      · exact before.of_new_file gone (writes q name) base server

/-- The whole loop settles every path. -/
theorem Going.loop (unclashed : Unclashed s₀ stamp)
    (copies : ∀ q, kept q → CopyName s₀ stamp q)
    (beside : ∀ q, CopyName s₀ stamp q → ∃ n, s₀.server.tree.file? n ≠ none ∧ dirs q = dirs n)
    {names : List Bytes} (valid : ∀ q ∈ names, isValidPath q = true)
    (going : Going s₀ kept names s) {here there : Bytes → Option FileInfo}
    (local_ : ∀ q, here q = s₀.dir.localFile q)
    (remote : ∀ q, there q = (s₀.server.tree.file? q).map (·.info q))
    (writes : ∀ q ∈ loopWrites here there (answered stamp) names s, CopyName s₀ stamp q → kept q) :
    (reconcileLoop here there (answered stamp) names s).2 = true ∧
      ∀ q, Settled kept (reconcileLoop here there (answered stamp) names s).1 q := by
  induction names generalizing s with
  | nil => exact ⟨rfl, fun q => going.settled q List.not_mem_nil⟩
  | cons name names ih =>
    have passed : (reconcileName (here name) (there name) (answered stamp name) s name).2 ≠
      .failed :=
      reconcileName_answered (here name) (there name) (stamp name) s name
    have acted : Acted (s₀.dir.localFile name) ((s₀.server.tree.file? name).map (·.info name))
        (stamp name) s name
        (reconcileName (here name) (there name) (answered stamp name) s name).1 := by
      rw [← local_, ← remote]
      refine reconcileName_acted (fun known => ?_) fun known => ?_
      · rw [local_, SyncDir.localFile, ne_eq, Option.map_eq_none_iff] at known
        rcases going.file name List.mem_cons_self with same | ⟨absent, -⟩
        · rwa [same]
        · exact absurd absent known
      · rw [remote, ne_eq, Option.map_eq_none_iff] at known
        rwa [going.server name List.mem_cons_self]
    rw [loopWrites] at writes
    rw [if_neg passed] at writes
    rw [reconcileLoop, if_neg passed]
    refine ih (fun q mem => valid q (List.mem_cons_of_mem _ mem))
      (going.step (valid name List.mem_cons_self) unclashed copies beside acted
        fun q copy changed => writes q ?_ copy) fun q mem => writes q ?_
    · exact List.mem_append_left _ (mem_written_iff.mpr changed)
    · exact List.mem_append_right _ mem

end Loop

/-! ## The changes left to the watcher -/

section Changes

variable {kept : Bytes → Prop} {s : Sides} {p q : Bytes}

/-- Nothing is left to do for a path that is in sync. -/
theorem syncLocalChange_of_same (same : Same s p) : (syncLocalChange s p .answered).1 = s := by
  have matched := same.base
  unfold syncLocalChange
  cases present : s.dir.tree.file? p with
  | none =>
    rw [same.base_none present, SyncDir.localFile, present]
    rfl
  | some f =>
    rw [SyncDir.content?, present, Option.map_some] at matched
    cases saved : s.dir.base[p]? with
    | none =>
      rw [saved] at matched
      exact matched.elim
    | some b =>
      rw [saved] at matched
      have hashed : s.dir.fillHash p f = f.info p := by
        refine SyncDir.fillHash_eq (fun g c file entry _ _ => ?_) present
        obtain rfl : f = g := Option.some.inj (present.symm.trans file)
        obtain rfl : b = c := Option.some.inj (saved.symm.trans entry)
        exact matched.1
      have equal : sameContent b (f.info p) = true := sameContent_iff.mpr matched
      rw [SyncDir.localFile, present, Option.map_some, hashed]
      simp only [Option.any_some, equal, if_true]

/-- A kept version is uploaded. -/
theorem same_of_syncLocalChange (all : ∀ q, Settled kept s q) (p : Bytes) :
    Same (syncLocalChange s p .answered).1 p ∧
      ∀ q, q ≠ p → Settled kept (syncLocalChange s p .answered).1 q ∧
        (Same s q → Same (syncLocalChange s p .answered).1 q) := by
  cases all p with
  | same same =>
    rw [syncLocalChange_of_same same]
    exact ⟨same, fun q _ => ⟨all q, id⟩⟩
  | copy f wrote present absent unsaved =>
    have here : s.dir.tree.file? p ≠ none := by rw [present]; nofun
    have stored : (s.server.tree.put p f).2 = true := by
      rw [FileTree.put_ok_iff, FileTree.free_iff_of_tight s.server.tight s.server.plain]
      exact ⟨fun q above => (all q).server_none (FileTree.file?_above here above),
        fun q below => (all q).server_none (FileTree.file?_below here below)⟩
    have eq : (syncLocalChange s p .answered).1 =
        ⟨{ s.dir with base := s.dir.base.insert p (f.info p) }, s.server.put p f⟩ := by
      rw [syncLocalChange, SyncDir.localFile, present, Option.map_some,
        SyncDir.fillHash_of_unsaved unsaved, unsaved]
      simp only [Option.any_none, Bool.false_eq_true, if_false, upload, present, stored, if_true]
    rw [eq]
    refine ⟨⟨?_, ?_⟩, fun q other => ?_⟩
    · rw [SyncDir.content?, present]
      exact congrArg (Option.map File.content)
        ((FileTree.file?_put stored p).trans (if_pos rfl)).symm
    · rw [SyncDir.content?, present, Map.getElem?_insert, if_pos rfl]
      exact Sessions.records_info p f
    · have base : (s.dir.base.insert p (f.info p))[q]? = s.dir.base[q]? :=
        (Map.getElem?_insert ..).trans (if_neg other)
      have server : (s.server.put p f).tree.file? q = s.server.tree.file? q :=
        FileTree.file?_put_of_ne _ _ other
      refine ⟨(all q).of_same_file rfl base server, fun same => ⟨?_, ?_⟩⟩
      · rw [server]
        exact same.content
      · rw [base]
        exact same.base

theorem syncChanges_settled (changes : List Bytes) (all : ∀ q, Settled kept s q) (q : Bytes)
    (done : Same s q ∨ q ∈ changes) : Same (syncChanges s changes) q := by
  induction changes generalizing s with
  | nil => exact done.elim id fun mem => (List.not_mem_nil mem).elim
  | cons p changes ih =>
    obtain ⟨here, others⟩ := same_of_syncLocalChange all p
    have all' : ∀ q, Settled kept (syncLocalChange s p .answered).1 q := by
      intro q
      by_cases same : q = p
      · subst q
        exact .same here
      · exact (others q same).1
    refine ih all' ?_
    by_cases same : q = p
    · subst q
      exact .inl here
    · rcases done with synced | mem
      · exact .inl ((others q same).2 synced)
      · exact .inr ((List.mem_cons.mp mem).resolve_left same)

end Changes

/-- **Reconciliation converges.** The two sides and the saved state hold any valid
paths. When no changed file and no conflicted copy has the name of a folder of
the other side, `reconcile` succeeds, and after `sync_local_change` of what it
wrote (and of anything else) sync_dir, the server's copy and the saved state
describe the same contents. -/
theorem reconcile_converges {s : Sides} {stamp : Bytes → Stamp} {changes : List Bytes}
    (valid : ValidPaths s) (tight : s.dir.tree.Tight) (plain : s.dir.tree.Plain)
    (unclashed : Unclashed s stamp)
    (processed : ∀ q ∈ reconcileWrites s (answered stamp), q ∈ changes) :
    (reconcile s .answered (answered stamp)).2 = true ∧
      Converged (syncChanges (reconcile s .answered (answered stamp)).1 changes) := by
  have beside : ∀ q, CopyName s stamp q →
      ∃ n, s.server.tree.file? n ≠ none ∧ dirs q = dirs n := by
    intro q copy
    cases copy with
    | @edit n g held _ attempt =>
      have stored : s.server.tree.file? n ≠ none := by
        rw [held]
        exact Option.some_ne_none g
      exact ⟨n, stored, dirs_conflictCandidate (valid.server n stored) _ _⟩
    | @copy n held _ _ attempt => exact ⟨n, held, dirs_conflictCandidate (valid.server n held) _ _⟩
  have start : Going s (fun q => CopyName s stamp q ∧ q ∈ reconcileWrites s (answered stamp))
      (reconcileNames s) s := by
    refine ⟨ordered_reconcileNames s, tight, plain, fun _ _ => .inl rfl, fun _ _ => rfl,
      fun _ _ => rfl, fun q unknown => ?_⟩
    rw [mem_reconcileNames_iff valid.dir valid.server] at unknown
    simp only [not_or, not_not] at unknown
    refine .same ⟨?_, ?_⟩
    · rw [SyncDir.content?, unknown.1.1, unknown.1.2]
    · rw [SyncDir.content?, unknown.1.1, unknown.2]
      trivial
  obtain ⟨ok, all⟩ := start.loop unclashed (fun _ => And.left) beside
    (fun q => valid_of_mem_reconcileNames valid) (getElem?_localFiles valid.dir)
    (getElem?_remoteFiles valid.server) fun q mem copy => ⟨copy, mem⟩
  refine ⟨ok, fun q => syncChanges_settled changes all q ?_⟩
  cases all q with
  | same same => exact .inl same
  | copy f kept => exact .inr (processed q kept.2)

/-! ## A file and a folder of the same name -/

section Examples

/-- The file `x` was created here and the file `x/y` elsewhere. -/
def fileAndFolder : Sides where
  dir := ⟨((∅ : FileTree Bytes File).put (bytes "x") hereOne).1, ∅⟩
  server := (∅ : UserDir).put (bytes "x/y") thereTwo

private theorem file?_folder (p : Bytes) : fileAndFolder.server.tree.file? p =
    if p = bytes "x/y" then some thereTwo else none := by
  have stored : ((∅ : FileTree Bytes File).put (bytes "x/y") thereTwo).2 = true := by decide +kernel
  exact (FileTree.file?_put stored p).trans (by rw [FileTree.file?_empty])

private theorem validPaths_fileAndFolder : ValidPaths fileAndFolder where
  dir p present := by
    have file := (file?_one hereOne p).symm
    split at file
    · rename_i here
      rw [here]
      decide
    · exact absurd file.symm present
  server p present := by
    rw [file?_folder] at present
    split at present
    · rename_i here
      rw [here]
      decide
    · exact absurd rfl present
  base _ mem := absurd mem ExtTreeMap.not_mem_empty

/-- Each side keeps its own: the upload is refused, the download cannot be
stored, and the run is a success. -/
theorem kept_apart_of_clash :
    ¬∀ (s : Sides) (stamp : Bytes → Stamp) (changes : List Bytes), ValidPaths s →
      s.dir.tree.Tight → s.dir.tree.Plain → (∀ p ∈ s.dir.base, ∀ q ∈ s.dir.base, p ∉ dirs q) →
      (reconcile s .answered (answered stamp)).2 = true →
      (∀ q ∈ reconcileWrites s (answered stamp), q ∈ changes) →
      Converged (syncChanges (reconcile s .answered (answered stamp)).1 changes) := by
  intro claim
  have converged := claim fileAndFolder (fun _ => noon) [] validPaths_fileAndFolder
    (FileTree.tight_empty.put _ _) (FileTree.plain_empty.put _ _)
    (fun p mem => absurd mem ExtTreeMap.not_mem_empty) (by decide +kernel)
    (by
      have none : reconcileWrites fileAndFolder (answered fun _ => noon) = [] := by decide +kernel
      rw [none]
      exact fun _ => id) (bytes "x")
  have here : (syncChanges (reconcile fileAndFolder .answered (answered fun _ => noon)).1
      []).dir.content? (bytes "x") = some [1] := by decide +kernel
  have there : (syncChanges (reconcile fileAndFolder .answered (answered fun _ => noon)).1
      []).server.tree.file? (bytes "x") = none := by decide +kernel
  have equal := converged.content
  rw [here, there] at equal
  cases equal

/-- Two edits of `x`: the server's version and the kept one end up on both sides. -/
theorem converged_facing :
    let s := facing hereOne thereTwo ∅
    let stamp : Bytes → Stamp := fun _ => noon
    (reconcile s .answered (answered stamp)).2 = true ∧ Converged
      (syncChanges (reconcile s .answered (answered stamp)).1
        (reconcileWrites s (answered stamp))) := by
  have flat : ∀ r q, (facing hereOne thereTwo ∅).server.tree.file? r ≠ none ∨
      (facing hereOne thereTwo ∅).dir.tree.file? r ≠ none → q ∉ dirs r := by
    intro r q present
    have here : r = bytes "x" := by
      by_contra other
      rcases present with stored | stored
      · exact stored ((file?_one thereTwo r).trans (if_neg other))
      · exact stored ((file?_one hereOne r).trans (if_neg other))
    rw [here, show dirs (bytes "x") = [] by decide]
    exact List.not_mem_nil
  refine reconcile_converges (validPaths_facing fun p mem => absurd mem ExtTreeMap.not_mem_empty)
    (FileTree.tight_empty.put _ _) (FileTree.plain_empty.put _ _)
    ⟨fun p f r _ stored above => ?_, fun p g r _ stored above => ?_, fun q r _ stored => ?_,
      fun p f g mine theirs same => ?_⟩ fun _ => id
  · exact absurd above (flat r p (.inl stored))
  · exact absurd above (flat r p (.inr stored))
  · exact flat r q (.inl stored)
  · have mine := (file?_one hereOne p).symm.trans mine
    have theirs := (file?_one thereTwo p).symm.trans theirs
    rw [Option.ite_none_right_eq_some] at mine theirs
    cases mine.2
    cases theirs.2
    rw [SyncDir.fillHash_of_unsaved ExtTreeMap.getElem?_empty] at same
    exact absurd (sameContent_info_iff.mp same).1 (by decide +kernel)

end Examples

end SisOp.Convergence
