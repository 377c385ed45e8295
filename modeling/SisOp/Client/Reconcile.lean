import SisOp.Client.SyncDir

/-!
# Reconciliation

`Client::reconcile`: the three-way comparison of sync_dir, the server's copy and
the saved state, path by path, each decision carried out by an exchange with
the server that can succeed, be refused or lose the connection.

Main result: `reconcile_keeps_unsynced`, whatever the exchanges do, no server
file that differs from the base is touched and every unsynced local content is
still in sync_dir.
-/

namespace SisOp

open Lib Std

/-- What becomes of one exchange: the server answers it, refuses it, or the
connection is lost before or after the server acted. -/
inductive Exchange where
  | answered
  | refused
  | lost (applied : Bool)
  deriving DecidableEq, Repr

inductive CallResult where
  | ok | rejected | failed
  deriving DecidableEq, Repr

/-- The two sides reconcile compares. -/
structure Sides where
  dir : SyncDir
  server : UserDir

/-! ## Exchanges -/

/-- `upload` of the file as it is on disk. -/
def upload (dir : SyncDir) (server : UserDir) (name : Bytes) (o : Exchange) :
    UserDir × CallResult :=
  match dir.tree.file? name, o with
  | some file, .answered =>
    (server.put name file, if (server.tree.put name file).2 then .ok else .rejected)
  | some file, .lost true => (server.put name file, .failed)
  | _, .lost _ => (server, .failed)
  | _, _ => (server, .rejected)

/-- `remove_remote`. -/
def removeRemote (server : UserDir) (name : Bytes) (o : Exchange) : UserDir × CallResult :=
  match o with
  | .answered => (server.delete name, if (server.tree.delete name).2 then .ok else .rejected)
  | .refused => (server, .rejected)
  | .lost applied => (if applied then server.delete name else server, .failed)

/-- `download`. -/
def download (server : UserDir) (name : Bytes) (o : Exchange) : Option File × CallResult :=
  match o with
  | .answered =>
    match server.tree.file? name with
    | some file => (some file, .ok)
    | none => (none, .rejected)
  | .refused => (none, .rejected)
  | .lost _ => (none, .failed)

/-! ## One path -/

/-- What happens at one path: the exchange, and the time a conflicted copy gets. -/
structure Outcome where
  exchange : Exchange
  stamp : Stamp

/-- The changed side, of two: whether to push the local side to the server. -/
def shouldPush (base here there : Option FileInfo) : Bool :=
  let changedHere := match here with
    | some h => !base.any fun b => sameContent b h
    | none => base.isSome
  let changedThere := match there with
    | some t => !base.any fun b => sameContent b t
    | none => base.isSome
  if changedHere != changedThere then changedHere
  else if here.isSome && there.isSome then false
  else here.isSome

/-- `remove_file`, then `remove_empty_parents`. -/
def removeLocal (tree : FileTree Bytes File) (name : Bytes) : FileTree Bytes File :=
  ((tree.unlink name).getD tree).rmdirs (dirs name).reverse

/-- The body of the loop of `reconcile`. -/
def reconcileName (here there : Option FileInfo) (o : Outcome) (s : Sides) (name : Bytes) :
    Sides × CallResult :=
  let base := s.dir.base[name]?
  match here, there with
  | none, none => ({ s with dir := { s.dir with base := s.dir.base.erase name } }, .ok)
  | some h, some t =>
    if sameContent h t then
      ({ s with dir := { s.dir with base := s.dir.base.insert name h } }, .ok)
    else if shouldPush base here there then push s h
    else pull s
  | some h, none =>
    if shouldPush base here there then push s h
    else ({ s with dir := ⟨removeLocal s.dir.tree name, s.dir.base.erase name⟩ }, .ok)
  | none, some _ =>
    if shouldPush base here there then
      let removed := removeRemote s.server name o.exchange
      (⟨if removed.2 = .failed then s.dir else { s.dir with base := s.dir.base.erase name },
        removed.1⟩, removed.2)
    else pull s
where
  push (s : Sides) (h : FileInfo) : Sides × CallResult :=
    let sent := upload s.dir s.server name o.exchange
    (⟨if sent.2 = .ok then { s.dir with base := s.dir.base.insert name h } else s.dir, sent.1⟩,
      sent.2)
  pull (s : Sides) : Sides × CallResult :=
    match download s.server name o.exchange with
    | (some temp, result) => ({ s with dir := s.dir.install name temp o.stamp }, result)
    | (none, result) => (s, result)

/-! ## The whole run -/

/-- The files with valid paths, and what is known of each. -/
def listing (t : FileTree Bytes File) (info : Bytes → File → FileInfo) :
    ExtTreeMap Bytes FileInfo :=
  Map.ofPairs ((t.files.filter fun entry => isValidPath entry.1).map fun entry =>
    (entry.1, info entry.1 entry.2))

/-- The local files, hashed. -/
def SyncDir.localFiles (d : SyncDir) : ExtTreeMap Bytes FileInfo := listing d.tree d.fillHash

/-- The server's files, as it lists them. -/
def remoteFiles (server : UserDir) : ExtTreeMap Bytes FileInfo :=
  listing server.tree fun name file => file.info name

/-- Every path of either side or of the saved state, in order. -/
def reconcileNames (s : Sides) : List Bytes :=
  (Map.ofPairs (((s.dir.localFiles.keys ++ (remoteFiles s.server).keys) ++ s.dir.base.keys).map
    fun name => (name, ()))).keys

/-- The loop, which stops at the first exchange that loses the connection. -/
def reconcileLoop (here there : Bytes → Option FileInfo) (outcome : Bytes → Outcome) :
    List Bytes → Sides → Sides × Bool
  | [], s => (s, true)
  | name :: names, s =>
    let one := reconcileName (here name) (there name) (outcome name) s name
    if one.2 = .failed then (one.1, false)
    else reconcileLoop here there outcome names one.1

/-- `Client::reconcile`, `listed` being what becomes of the listing. -/
def reconcile (s : Sides) (listed : Exchange) (outcome : Bytes → Outcome) : Sides × Bool :=
  match listed with
  | .lost _ => (s, false)
  | .refused => (s, true)
  | .answered =>
    let here := s.dir.localFiles
    let there := remoteFiles s.server
    reconcileLoop (here[·]?) (there[·]?) outcome (reconcileNames s) s

theorem reconcile_answered (s : Sides) (outcome : Bytes → Outcome) :
    reconcile s .answered outcome = reconcileLoop (s.dir.localFiles[·]?)
      ((remoteFiles s.server)[·]?) outcome (reconcileNames s) s := rfl

/-! ## What one path can change -/

section OneName

variable {here there : Option FileInfo} {o : Outcome} {s : Sides} {name q : Bytes}

theorem file?_removeLocal_of_ne {tree : FileTree Bytes File} (other : q ≠ name) :
    (removeLocal tree name).file? q = tree.file? q := by
  rw [removeLocal, FileTree.file?_rmdirs]
  cases removed : tree.unlink name with
  | none => rfl
  | some tree' =>
    rw [Option.getD_some, FileTree.file?_unlink removed, if_neg other]

/-- A file that is there is deleted as the server deletes one. -/
theorem removeLocal_of_present {tree : FileTree Bytes File} {f : File}
    (present : tree.file? name = some f) : removeLocal tree name = (tree.delete name).1 := by
  have node := FileTree.file?_eq_some_iff.mp present
  unfold removeLocal FileTree.delete
  cases removed : tree.unlink name with
  | some tree' => rfl
  | none =>
    rw [FileTree.unlink_eq_none_iff, FileTree.isDir_eq_false_iff, node] at removed
    exact absurd ⟨nofun, nofun⟩ removed

theorem node_removeLocal {tree : FileTree Bytes File} {n : Node File}
    (present : (removeLocal tree name).node q = some n) : tree.node q = some n := by
  have rmdirs : ∀ (ds : List Bytes) (t : FileTree Bytes File),
      (t.rmdirs ds).node q = some n → t.node q = some n := by
    intro ds
    induction ds with
    | nil => exact fun t held => held
    | cons d ds ih =>
      intro t held
      rw [FileTree.rmdirs] at held
      split at held
      · rename_i t' removed
        have below := ih t' held
        rw [FileTree.node_rmdir removed] at below
        split at below
        · cases below
        · exact below
      · exact held
  have unlinked := rmdirs _ _ present
  cases removed : tree.unlink name with
  | none =>
    rw [removed] at unlinked
    exact unlinked
  | some tree' =>
    rw [removed, Option.getD_some, FileTree.node_unlink removed] at unlinked
    split at unlinked
    · cases unlinked
    · exact unlinked

theorem file?_upload_of_ne (dir : SyncDir) (server : UserDir) (e : Exchange) (other : q ≠ name) :
    (upload dir server name e).1.tree.file? q = server.tree.file? q := by
  unfold upload
  split
  · exact FileTree.file?_put_of_ne _ _ other
  · exact FileTree.file?_put_of_ne _ _ other
  · rfl
  · rfl

theorem file?_removeRemote_of_ne (server : UserDir) (e : Exchange) (other : q ≠ name) :
    (removeRemote server name e).1.tree.file? q = server.tree.file? q := by
  have deleted : (server.delete name).tree.file? q = server.tree.file? q := by
    rw [UserDir.delete, FileTree.file?_delete, if_neg other]
  unfold removeRemote
  cases e with
  | answered => exact deleted
  | refused => rfl
  | lost applied => cases applied <;> first | rfl | exact deleted

/-- What the loop body did at a path, with the decision it was based on. -/
inductive Did (here there : Option FileInfo) (o : Outcome) (s : Sides) (name : Bytes) :
    Sides → Prop
  | nothing (base : ExtTreeMap Bytes FileInfo)
      (frame : ∀ q, q ≠ name → base[q]? = s.dir.base[q]?) :
      Did here there o s name ⟨⟨s.dir.tree, base⟩, s.server⟩
  | uploaded (base : ExtTreeMap Bytes FileInfo)
      (frame : ∀ q, q ≠ name → base[q]? = s.dir.base[q]?) (h : FileInfo) (local_ : here = some h)
      (differs : ∀ t, there = some t → sameContent h t = false)
      (decision : shouldPush s.dir.base[name]? here there = true) :
      Did here there o s name ⟨⟨s.dir.tree, base⟩, (upload s.dir s.server name o.exchange).1⟩
  | removed (base : ExtTreeMap Bytes FileInfo)
      (frame : ∀ q, q ≠ name → base[q]? = s.dir.base[q]?) (local_ : here = none)
      (decision : shouldPush s.dir.base[name]? here there = true) :
      Did here there o s name ⟨⟨s.dir.tree, base⟩, (removeRemote s.server name o.exchange).1⟩
  | installed (t : FileInfo) (remote : there = some t) (temp : File)
      (present : s.server.tree.file? name = some temp)
      (differs : ∀ h, here = some h → sameContent h t = false)
      (decision : shouldPush s.dir.base[name]? here there = false) :
      Did here there o s name ⟨s.dir.install name temp o.stamp, s.server⟩
  | deleted (h : FileInfo) (local_ : here = some h) (remote : there = none)
      (decision : shouldPush s.dir.base[name]? here there = false) :
      Did here there o s name ⟨⟨removeLocal s.dir.tree name, s.dir.base.erase name⟩, s.server⟩

private theorem did_push {h : FileInfo} (local_ : here = some h)
    (differs : ∀ t, there = some t → sameContent h t = false)
    (decision : shouldPush s.dir.base[name]? here there = true) :
    Did here there o s name (reconcileName.push o name s h).1 := by
  unfold reconcileName.push
  dsimp only
  split
  · exact .uploaded _ (fun q other => by rw [Map.getElem?_insert, if_neg other]) h local_ differs
      decision
  · exact .uploaded s.dir.base (fun _ _ => rfl) h local_ differs decision

private theorem did_pull {t : FileInfo} (remote : there = some t)
    (differs : ∀ h, here = some h → sameContent h t = false)
    (decision : shouldPush s.dir.base[name]? here there = false) :
    Did here there o s name (reconcileName.pull o name s).1 := by
  unfold reconcileName.pull
  split
  · rename_i temp result downloaded
    have present : s.server.tree.file? name = some temp := by
      unfold download at downloaded
      repeat' split at downloaded
      all_goals cases downloaded
      assumption
    exact .installed t remote temp present differs decision
  · exact .nothing s.dir.base fun _ _ => rfl

theorem reconcileName_did (here there : Option FileInfo) (o : Outcome) (s : Sides)
    (name : Bytes) : Did here there o s name (reconcileName here there o s name).1 := by
  unfold reconcileName
  cases hereIs : here with
  | none =>
    cases thereIs : there with
    | none => exact .nothing _ fun q other => by rw [Map.getElem?_erase, if_neg other]
    | some t =>
      dsimp only
      split
      · rename_i decision
        split
        · exact .removed s.dir.base (fun _ _ => rfl) rfl decision
        · exact .removed _ (fun q other => by rw [Map.getElem?_erase, if_neg other]) rfl decision
      · rename_i decision
        exact did_pull rfl nofun (Bool.not_eq_true _ ▸ decision)
  | some h =>
    cases thereIs : there with
    | none =>
      dsimp only
      split
      · rename_i decision
        exact did_push rfl nofun decision
      · rename_i decision
        exact .deleted h rfl rfl (Bool.not_eq_true _ ▸ decision)
    | some t =>
      dsimp only
      split
      · exact .nothing _ fun q other => by rw [Map.getElem?_insert, if_neg other]
      · rename_i differ
        have differ : sameContent h t = false := Bool.not_eq_true _ ▸ differ
        split
        · rename_i decision
          exact did_push rfl (fun _ eq => Option.some.inj eq ▸ differ) decision
        · rename_i decision
          exact did_pull rfl (fun _ eq => Option.some.inj eq ▸ differ)
            (Bool.not_eq_true _ ▸ decision)

variable {s' : Sides}

theorem Did.server_of_ne (did : Did here there o s name s') (other : q ≠ name) :
    s'.server.tree.file? q = s.server.tree.file? q := by
  cases did with
  | nothing | installed | deleted => rfl
  | uploaded => exact file?_upload_of_ne _ _ _ other
  | removed => exact file?_removeRemote_of_ne _ _ other

theorem Did.base_of_ne (did : Did here there o s name s') (other : q ≠ name) :
    s'.dir.base[q]? = s.dir.base[q]? := by
  cases did with
  | nothing _ frame | uploaded _ frame | removed _ frame => exact frame q other
  | installed => exact SyncDir.base_install_of_ne other
  | deleted => exact (Map.getElem?_erase ..).trans (if_neg other)

/-- The other local files stay; at most a conflicted copy joins them, at a path
where there was none. -/
theorem Did.file_of_ne (did : Did here there o s name s') (other : q ≠ name) :
    s'.dir.tree.file? q = s.dir.tree.file? q ∨ s.dir.tree.file? q = none := by
  cases did with
  | nothing | uploaded | removed => exact .inl rfl
  | installed => exact (SyncDir.file?_install_of_ne other).imp_right And.left
  | deleted => exact .inl (file?_removeLocal_of_ne other)

/-- New directories only lead to a path the server has. -/
theorem Did.node (did : Did here there o s name s') {n : Node File}
    (present : s'.dir.tree.node q = some n) : s.dir.tree.node q = some n ∨
      (∃ f, n = .file f) ∨ q ∈ dirs name ∧ there ≠ none := by
  cases did with
  | nothing | uploaded | removed => exact .inl present
  | installed t remote =>
    rcases SyncDir.node_install s.dir name o.stamp q with same | gone | ⟨f, file⟩ | above
    · exact .inl (same.symm.trans present)
    · rw [gone] at present
      cases present
    · rw [file] at present
      exact .inr (.inl ⟨f, (Option.some.inj present).symm⟩)
    · exact .inr (.inr ⟨above, by rw [remote]; exact Option.some_ne_none _⟩)
  | deleted => exact .inl (node_removeLocal present)

/-- What is pushed over a server file replaces the version of the base. -/
theorem base_of_shouldPush {base : Option FileInfo} {t : FileInfo}
    (decision : shouldPush base here (some t) = true) :
    (base.any fun b => sameContent b t) = true := by
  unfold shouldPush at decision
  cases here with
  | none =>
    cases same : base.any fun b => sameContent b t with
    | true => rfl
    | false =>
      simp only [same, Option.isSome_none, Bool.false_and, Bool.not_false] at decision
      cases base <;> simp_all
  | some h =>
    cases same : base.any fun b => sameContent b t with
    | true => rfl
    | false =>
      simp only [same, Option.isSome_some, Bool.and_self, Bool.not_false] at decision
      cases other : base.any fun b => sameContent b h <;> simp_all

/-- A server file that differs from the base stays as it is. -/
theorem Did.server_guarded (did : Did here there o s name s') {g : File}
    (remote : there = some (g.info name)) (present : s.server.tree.file? name = some g)
    (differs : (s.dir.base[name]?.any fun b => sameContent b (g.info name)) = false) :
    s'.server.tree.file? name = some g := by
  cases did with
  | nothing | installed | deleted => exact present
  | uploaded _ _ _ _ _ decision | removed _ _ _ decision =>
    rw [remote] at decision
    rw [base_of_shouldPush decision] at differs
    cases differs

end OneName

/-! ## The loop -/

/-- What holds of the paths still to come and of the state so far, preserved
path by path, holds when the loop stops, wherever that is. -/
theorem reconcileLoop_invariant (here there : Bytes → Option FileInfo) (outcome : Bytes → Outcome)
    {I : List Bytes → Sides → Prop}
    (step : ∀ name rest s s', I (name :: rest) s →
      Did (here name) (there name) (outcome name) s name s' → I rest s')
    (names : List Bytes) (s : Sides) (init : I names s) :
    ∃ rest, I rest (reconcileLoop here there outcome names s).1 := by
  induction names generalizing s with
  | nil => exact ⟨[], init⟩
  | cons name names ih =>
    have next := step name names s _ init (reconcileName_did ..)
    rw [reconcileLoop]
    split
    · exact ⟨names, next⟩
    · exact ih _ next

/-- The paths still to come are as they were, up to conflicted copies that
appeared where there was no file; server files that differ from the base are
untouched everywhere. -/
structure Progress (s₀ : Sides) (rest : List Bytes) (s : Sides) : Prop where
  nodup : rest.Nodup
  file : ∀ q ∈ rest, s₀.dir.tree.file? q ≠ none → s.dir.tree.file? q = s₀.dir.tree.file? q
  base : ∀ q ∈ rest, s.dir.base[q]? = s₀.dir.base[q]?
  server : ∀ q ∈ rest, s.server.tree.file? q = s₀.server.tree.file? q
  guarded : ∀ p g, s₀.server.tree.file? p = some g →
    (s₀.dir.base[p]?.any fun b => sameContent b (g.info p)) = false →
      s.server.tree.file? p = some g

theorem Progress.step {s₀ s s' : Sides} {here : Option FileInfo} {o : Outcome} {name : Bytes}
    {rest : List Bytes} (progress : Progress s₀ (name :: rest) s)
    (did : Did here ((s₀.server.tree.file? name).map (·.info name)) o s name s') :
    Progress s₀ rest s' := by
  have notLater : ∀ q ∈ rest, q ≠ name := fun q mem same =>
    (List.nodup_cons.mp progress.nodup).1 (same ▸ mem)
  have later : ∀ q ∈ rest, q ∈ name :: rest := fun q => List.mem_cons_of_mem name
  constructor
  case nodup => exact (List.nodup_cons.mp progress.nodup).2
  case file =>
    intro q mem present
    have before := progress.file q (later q mem) present
    rcases did.file_of_ne (notLater q mem) with same | absent
    · exact same.trans before
    · exact absurd (before.symm.trans absent) present
  case base =>
    exact fun q mem => (did.base_of_ne (notLater q mem)).trans (progress.base q (later q mem))
  case server =>
    exact fun q mem => (did.server_of_ne (notLater q mem)).trans (progress.server q (later q mem))
  case guarded =>
    intro p g present differs
    have now := progress.guarded p g present differs
    by_cases here : p = name
    · subst p
      refine did.server_guarded (by rw [present]; rfl) now ?_
      rw [progress.base name List.mem_cons_self]
      exact differs
    · exact (did.server_of_ne here).trans now

/-! ## Unsynced contents -/

/-- The names `conflict_name` can try in a run. -/
def IsCopyName (s : Sides) (outcome : Bytes → Outcome) (q : Bytes) : Prop :=
  ∃ name ∈ reconcileNames s, ∃ attempt ≥ 1,
    q = conflictCandidate name (outcome name).stamp attempt

/-- `q` is `p`, or a conflicted copy of it, or a conflicted copy of a copy. -/
inductive CopyOf (s : Sides) (outcome : Bytes → Outcome) (p : Bytes) : Bytes → Prop
  | self : CopyOf s outcome p p
  | copy {q : Bytes} (earlier : CopyOf s outcome p q) (mem : q ∈ reconcileNames s) (attempt : Nat)
      (positive : attempt ≥ 1) :
      CopyOf s outcome p (conflictCandidate q (outcome q).stamp attempt)

/-- A local file that differs from the base and from the server's version. -/
structure Unsynced (s : Sides) (p : Bytes) (f : File) : Prop where
  present : s.dir.tree.file? p = some f
  base : (s.dir.base[p]?.any fun b => sameContent b (f.info p)) = false
  server : ∀ g, s.server.tree.file? p = some g → sameContent (f.info p) (g.info p) = false

/-- Every path of the two sides is valid, and so is every saved one. -/
structure ValidPaths (s : Sides) : Prop where
  dir : ∀ p, s.dir.tree.file? p ≠ none → isValidPath p = true
  server : ∀ p, s.server.tree.file? p ≠ none → isValidPath p = true
  base : ∀ p ∈ s.dir.base, isValidPath p = true

/-- Contents can be told apart by what is saved and compared of them, and the
names of conflicted copies are free for them: no folder or link is there or will
be made there, and none is both saved and on the server. -/
structure Distinguishable (s : Sides) (outcome : Bytes → Outcome) : Prop where
  saved : ∀ p, s.dir.HashSaved p
  contents : ∀ p f q g, s.dir.tree.file? p = some f → s.server.tree.file? q = some g →
    fnv1a f.content = fnv1a g.content → f.content.length = g.content.length →
      f.content = g.content
  vacant : ∀ q, IsCopyName s outcome q → s.dir.tree.node q ≠ some .dir ∧
    s.dir.tree.node q ≠ some .link ∧ ∀ r, s.server.tree.file? r ≠ none → q ∉ dirs r
  unsaved : ∀ q, IsCopyName s outcome q → s.dir.base[q]? = none ∨ s.server.tree.file? q = none

/-- Along the run every unsynced content is somewhere the rest of the run will
not touch, or will keep. -/
structure Kept (s₀ : Sides) (outcome : Bytes → Outcome) (rest : List Bytes) (s : Sides) : Prop where
  progress : Progress s₀ rest s
  names : ∀ q ∈ rest, q ∈ reconcileNames s₀
  vacant : ∀ q, IsCopyName s₀ outcome q → s.dir.tree.node q ≠ some .dir
  kept : ∀ p f, Unsynced s₀ p f → ∃ q g, CopyOf s₀ outcome p q ∧ s.dir.tree.file? q = some g ∧
    g.content = f.content ∧ (q ∈ rest → q = p ∨ s₀.dir.tree.file? q = none)

/-- A listing has what the tree has at valid paths. -/
theorem getElem?_listing_eq (t : FileTree Bytes File) (info : Bytes → File → FileInfo)
    (name : Bytes) : (listing t info)[name]? =
      if isValidPath name then (t.file? name).map (info name) else none := by
  have functional : ∀ k v, (k, v) ∈ (t.files.filter fun entry => isValidPath entry.1).map
      (fun entry => (entry.1, info entry.1 entry.2)) ↔
        isValidPath k = true ∧ ∃ f, t.file? k = some f ∧ info k f = v := by
    intro k v
    simp only [List.mem_map, List.mem_filter, Prod.exists, FileTree.mem_files_iff, Prod.mk.injEq]
    constructor
    · rintro ⟨_, f, ⟨present, valid⟩, rfl, rfl⟩
      exact ⟨valid, f, present, rfl⟩
    · rintro ⟨valid, f, present, rfl⟩
      exact ⟨k, f, ⟨present, valid⟩, rfl, rfl⟩
  refine Option.ext fun v => ?_
  rw [listing, Map.getElem?_ofPairs, functional]
  · split
    · rename_i valid
      rw [Option.map_eq_some_iff, and_iff_right valid]
    · rename_i invalid
      exact ⟨fun both => absurd both.1 invalid, nofun⟩
  intro k v v' left right
  obtain ⟨-, f, present, rfl⟩ := (functional k v).mp left
  obtain ⟨-, g, present', rfl⟩ := (functional k v').mp right
  rw [present] at present'
  cases present'
  rfl

theorem getElem?_listing {t : FileTree Bytes File} {info : Bytes → File → FileInfo}
    (valid : ∀ p, t.file? p ≠ none → isValidPath p = true) (name : Bytes) :
    (listing t info)[name]? = (t.file? name).map (info name) := by
  rw [getElem?_listing_eq]
  split
  · rfl
  · rename_i invalid
    have absent : t.file? name = none := by
      by_contra present
      exact invalid (valid name present)
    rw [absent, Option.map_none]

theorem getElem?_localFiles {d : SyncDir}
    (valid : ∀ p, d.tree.file? p ≠ none → isValidPath p = true) (name : Bytes) :
    d.localFiles[name]? = d.localFile name := getElem?_listing valid name

theorem getElem?_remoteFiles {server : UserDir}
    (valid : ∀ p, server.tree.file? p ≠ none → isValidPath p = true) (name : Bytes) :
    (remoteFiles server)[name]? = (server.tree.file? name).map (·.info name) :=
  getElem?_listing valid name

/-- The paths of a run are those of the two sides and the saved ones. -/
theorem mem_reconcileNames_iff {s : Sides}
    (dir : ∀ p, s.dir.tree.file? p ≠ none → isValidPath p = true)
    (server : ∀ p, s.server.tree.file? p ≠ none → isValidPath p = true) {name : Bytes} :
    name ∈ reconcileNames s ↔ (s.dir.tree.file? name ≠ none ∨ s.server.tree.file? name ≠ none) ∨
      s.dir.base[name]? ≠ none := by
  have unit : name ∈ reconcileNames s ↔
      ∃ u, (name, u) ∈ ((s.dir.localFiles.keys ++ (remoteFiles s.server).keys) ++
        s.dir.base.keys).map fun name => (name, ()) := by
    rw [reconcileNames, ExtTreeMap.mem_keys, Map.mem_iff_ne_none, Option.ne_none_iff_exists']
    exact exists_congr fun u => Map.getElem?_ofPairs fun _ _ _ _ _ => rfl
  rw [unit]
  simp only [List.mem_map, List.mem_append, ExtTreeMap.mem_keys, Prod.mk.injEq, and_true,
    exists_eq_right, Map.mem_iff_ne_none, getElem?_localFiles dir, getElem?_remoteFiles server,
    SyncDir.localFile, ne_eq, Option.map_eq_none_iff, exists_const]

/-- The paths of a run are valid. -/
theorem valid_of_mem_reconcileNames {s : Sides} (valid : ValidPaths s) {name : Bytes}
    (mem : name ∈ reconcileNames s) : isValidPath name = true := by
  rcases (mem_reconcileNames_iff valid.dir valid.server).mp mem with (onDisk | onServer) | saved
  · exact valid.dir name onDisk
  · exact valid.server name onServer
  · exact valid.base name (Map.mem_iff_ne_none.mpr saved)

theorem sameContent_info_iff {f g : File} {p q : Bytes} : sameContent (f.info p) (g.info q) = true ↔
    fnv1a f.content = fnv1a g.content ∧ f.content.length = g.content.length := by
  rw [sameContent_iff]
  refine and_congr_right fun _ => ⟨fun same => ?_, fun same => congrArg Nat.toUInt64 same⟩
  rw [← f.toNat_size, ← g.toNat_size]
  exact congrArg UInt64.toNat same

/-- Where the loop body finds a file, it leaves its content there or moves it to
a free conflicted-copy name. -/
theorem Did.keeps {here there : Option FileInfo} {o : Outcome} {s s' : Sides} {name : Bytes}
    {g : File} (did : Did here there o s name s') (valid : isValidPath name = true)
    (present : s.dir.tree.file? name = some g)
    (unsaved : ∀ h, here = some h → (s.dir.base[name]?.any fun b => sameContent b h) = false)
    (info : ∀ temp, s.server.tree.file? name = some temp → s.dir.fillHash name g = g.info name ∧
      (s.dir.base[name]?.any fun b => sameContent b (g.info name)) = false ∧
      (sameContent (g.info name) (temp.info name) = true → temp.content = g.content))
    (vacant : s.dir.tree.node (conflictName s.dir.tree name o.stamp) ≠ some .dir) :
    (∃ g', s'.dir.tree.file? name = some g' ∧ g'.content = g.content) ∨
      s'.dir.tree.file? (conflictName s.dir.tree name o.stamp) = some g := by
  cases did with
  | nothing | uploaded | removed => exact .inl ⟨g, present, rfl⟩
  | installed t remote temp onServer differs decision =>
    obtain ⟨filled, unmatched, equal⟩ := info temp onServer
    have synced : s.dir.unsynced name (temp.info name) =
        !sameContent (g.info name) (temp.info name) := by
      simp only [SyncDir.unsynced, SyncDir.localFile, present, Option.map_some, filled, unmatched,
        Bool.not_false, Bool.and_true]
    cases same : sameContent (g.info name) (temp.info name) with
    | false =>
      rw [same] at synced
      exact .inr (SyncDir.install_keeps valid present synced vacant)
    | true =>
      rw [same] at synced
      rcases SyncDir.install_replaces o.stamp synced with replaced | stayed
      · exact .inl ⟨temp, replaced, equal same⟩
      · exact .inl ⟨g, stayed.trans present, rfl⟩
  | deleted h local_ remote decision =>
    have changed := unsaved h local_
    rw [local_, remote] at decision
    simp only [shouldPush, changed] at decision
    cases s.dir.base[name]? <;> simp at decision

theorem CopyOf.cases_name {s : Sides} {outcome : Bytes → Outcome} {p q : Bytes}
    (copy : CopyOf s outcome p q) : q = p ∨ IsCopyName s outcome q := by
  cases copy with
  | self => exact .inl rfl
  | copy _ mem attempt positive => exact .inr ⟨_, mem, attempt, positive, rfl⟩

theorem Kept.step {s₀ s s' : Sides} {outcome : Bytes → Outcome} {name : Bytes} {rest : List Bytes}
    (valid : ValidPaths s₀) (apart : Distinguishable s₀ outcome)
    (kept : Kept s₀ outcome (name :: rest) s)
    (did : Did (s₀.dir.localFile name) ((s₀.server.tree.file? name).map (·.info name))
      (outcome name) s name s') : Kept s₀ outcome rest s' := by
  have nameHere := kept.names name List.mem_cons_self
  have notLater := (List.nodup_cons.mp kept.progress.nodup).1
  have baseHere := kept.progress.base name List.mem_cons_self
  have serverHere := kept.progress.server name List.mem_cons_self
  obtain ⟨⟨attempt, positive, copyEq⟩, copyFree⟩ :=
    conflictName_spec s.dir.tree name (outcome name).stamp
  have copyName : IsCopyName s₀ outcome (conflictName s.dir.tree name (outcome name).stamp) :=
    ⟨name, nameHere, attempt, positive, copyEq⟩
  constructor
  case progress => exact kept.progress.step did
  case names => exact fun q mem => kept.names q (List.mem_cons_of_mem _ mem)
  case vacant =>
    intro q copy dir
    rcases did.node dir with before | ⟨f, file⟩ | ⟨above, remote⟩
    · exact kept.vacant q copy before
    · cases file
    · refine (apart.vacant q copy).2.2 name (fun absent => remote ?_) above
      rw [absent, Option.map_none]
  case kept =>
    intro p f unsynced
    obtain ⟨q, g, copy, present, content, later⟩ := kept.kept p f unsynced
    by_cases here : q = name
    case neg =>
      -- another path: the file stays
      refine ⟨q, g, copy, ?_, content, fun mem => later (List.mem_cons_of_mem _ mem)⟩
      rcases did.file_of_ne here with same | absent
      · exact same.trans present
      · rw [present] at absent
        cases absent
    subst q
    have own : name = p ∨ s₀.dir.tree.file? name = none := later List.mem_cons_self
    have nameValid := valid_of_mem_reconcileNames valid nameHere
    have moved := did.keeps nameValid present (fun h local_ => ?_) (fun temp onServer => ?_)
      (kept.vacant _ copyName)
    · rcases moved with ⟨g', stays, same⟩ | moves
      · exact ⟨name, g', copy, stays, same.trans content, fun mem => absurd mem notLater⟩
      · refine ⟨_, g, copyEq ▸ copy.copy nameHere attempt positive, moves, content, fun mem => ?_⟩
        by_contra occupied
        rw [not_or] at occupied
        have before := kept.progress.file _ (List.mem_cons_of_mem _ mem) occupied.2
        exact occupied.2 (before.symm.trans copyFree)
    · -- the loop sees this file only where it was from the start
      rcases own with rfl | absent
      · rw [SyncDir.localFile, unsynced.present, Option.map_some,
          SyncDir.fillHash_eq (apart.saved name) unsynced.present] at local_
        cases local_
        rw [baseHere]
        exact unsynced.base
      · rw [SyncDir.localFile, absent] at local_
        cases local_
    · rw [serverHere] at onServer
      rw [baseHere, SyncDir.fillHash_congr baseHere]
      have equal : sameContent (g.info name) (temp.info name) = true →
        temp.content = g.content := by
        intro same
        rw [sameContent_info_iff, content] at same
        rw [content]
        exact (apart.contents p f name temp unsynced.present onServer same.1 same.2).symm
      rcases own with rfl | absent
      · have original := kept.progress.file name List.mem_cons_self
          (by rw [unsynced.present]; nofun)
        obtain rfl : g = f := Option.some.inj
          (present.symm.trans (original.trans unsynced.present))
        exact ⟨SyncDir.fillHash_eq (apart.saved name) unsynced.present, unsynced.base, equal⟩
      · rcases copy.cases_name with rfl | copied
        · rw [unsynced.present] at absent
          cases absent
        rcases apart.unsaved name copied with unsaved | gone
        · exact ⟨SyncDir.fillHash_of_unsaved unsaved g, by rw [unsaved]; rfl, equal⟩
        · rw [gone] at onServer
          cases onServer

/-- **Reconciliation keeps unsynced versions.** Whatever the exchanges do and
wherever the run stops: a server file that differs from the base stays as it is,
and the content of a local file that differs from the base and from the server
is still in sync_dir, at its path or as a conflicted copy. -/
theorem reconcile_keeps_unsynced {s : Sides} {outcome : Bytes → Outcome} (valid : ValidPaths s)
    (apart : Distinguishable s outcome) (listed : Exchange) :
    let final := (reconcile s listed outcome).1
    (∀ p g, s.server.tree.file? p = some g →
      (s.dir.base[p]?.any fun b => sameContent b (g.info p)) = false →
        final.server.tree.file? p = some g) ∧
    ∀ p f, Unsynced s p f → ∃ q g, CopyOf s outcome p q ∧
      final.dir.tree.file? q = some g ∧ g.content = f.content := by
  have untouched : (∀ p g, s.server.tree.file? p = some g →
      (s.dir.base[p]?.any fun b => sameContent b (g.info p)) = false →
        s.server.tree.file? p = some g) ∧
      ∀ p f, Unsynced s p f → ∃ q g, CopyOf s outcome p q ∧
        s.dir.tree.file? q = some g ∧ g.content = f.content :=
    ⟨fun _ _ present _ => present, fun p f unsynced => ⟨p, f, .self, unsynced.present, rfl⟩⟩
  cases listed with
  | lost applied => exact untouched
  | refused => exact untouched
  | answered =>
    rw [reconcile_answered]
    have nodup : (reconcileNames s).Nodup :=
      ExtTreeMap.distinct_keys.imp fun apart same => apart (Std.compare_eq_iff_eq.mpr same)
    obtain ⟨rest, kept⟩ := reconcileLoop_invariant (s.dir.localFiles[·]?)
      ((remoteFiles s.server)[·]?) outcome (I := Kept s outcome)
      (fun name rest s' s'' kept did => kept.step valid apart (by
        rw [← getElem?_localFiles valid.dir, ← getElem?_remoteFiles valid.server]
        exact did)) (reconcileNames s) s
      { progress := ⟨nodup, fun _ _ _ => rfl, fun _ _ => rfl, fun _ _ => rfl,
          fun _ _ present _ => present⟩
        names := fun _ mem => mem
        vacant := fun q copy => (apart.vacant q copy).1
        kept := fun p f unsynced => ⟨p, f, .self, unsynced.present, rfl, fun _ => .inl rfl⟩ }
    refine ⟨kept.progress.guarded, fun p f unsynced => ?_⟩
    obtain ⟨q, g, copy, present, content, -⟩ := kept.kept p f unsynced
    exact ⟨q, g, copy, present, content⟩

/-! ## Exchanges that are all answered -/

theorem upload_answered (dir : SyncDir) (server : UserDir) (name : Bytes) :
    (upload dir server name .answered).2 ≠ .failed := by
  unfold upload
  cases dir.tree.file? name with
  | none => nofun
  | some file =>
    dsimp only
    split <;> nofun

theorem removeRemote_answered (server : UserDir) (name : Bytes) :
    (removeRemote server name .answered).2 ≠ .failed := by
  unfold removeRemote
  dsimp only
  split <;> nofun

theorem download_answered (server : UserDir) (name : Bytes) :
    (download server name .answered).2 ≠ .failed := by
  unfold download
  cases server.tree.file? name <;> nofun

/-- No path stops the loop. -/
theorem reconcileName_answered (here there : Option FileInfo) (stamp : Stamp) (s : Sides)
    (name : Bytes) : (reconcileName here there ⟨.answered, stamp⟩ s name).2 ≠ .failed := by
  have pulled : (reconcileName.pull ⟨.answered, stamp⟩ name s).2 ≠ .failed := by
    have answered := download_answered s.server name
    unfold reconcileName.pull
    dsimp only
    split <;> rename_i downloaded <;> rw [downloaded] at answered <;> exact answered
  unfold reconcileName
  cases here with
  | none =>
    cases there with
    | none => nofun
    | some t =>
      dsimp only
      split
      · exact removeRemote_answered s.server name
      · exact pulled
  | some h =>
    cases there with
    | none =>
      dsimp only
      split
      · exact upload_answered s.dir s.server name
      · nofun
    | some t =>
      dsimp only
      split
      · nofun
      · split
        · exact upload_answered s.dir s.server name
        · exact pulled

/-! ## Sides in sync -/

/-- Two sides that have the same of a path: nothing is exchanged. -/
theorem reconcileName_of_agree {here there : Option FileInfo} {o : Outcome} {s : Sides}
    {name : Bytes} (absent : here = none ↔ there = none)
    (same : ∀ h t, here = some h → there = some t → sameContent h t = true) :
    (reconcileName here there o s name).1.dir.tree = s.dir.tree ∧
      (reconcileName here there o s name).1.server = s.server ∧
      (reconcileName here there o s name).2 = .ok := by
  unfold reconcileName
  cases here with
  | none =>
    rw [absent.mp rfl]
    exact ⟨rfl, rfl, rfl⟩
  | some h =>
    cases there with
    | none => cases absent.mpr rfl
    | some t =>
      dsimp only
      rw [if_pos (same h t rfl rfl)]
      exact ⟨rfl, rfl, rfl⟩

theorem reconcileLoop_of_agree {here there : Bytes → Option FileInfo} (outcome : Bytes → Outcome)
    (absent : ∀ name, here name = none ↔ there name = none)
    (same : ∀ name h t, here name = some h → there name = some t → sameContent h t = true)
    (names : List Bytes) (s : Sides) :
    (reconcileLoop here there outcome names s).1.dir.tree = s.dir.tree ∧
      (reconcileLoop here there outcome names s).1.server = s.server := by
  induction names generalizing s with
  | nil => exact ⟨rfl, rfl⟩
  | cons name names ih =>
    obtain ⟨tree, server, ok⟩ := reconcileName_of_agree (o := outcome name) (s := s)
      (absent name) (same name)
    rw [reconcileLoop, if_neg (by rw [ok]; nofun)]
    have rest := ih (reconcileName (here name) (there name) (outcome name) s name).1
    exact ⟨rest.1.trans tree, rest.2.trans server⟩

/-- Reconciling sides with the same contents changes no file. -/
theorem reconcile_of_agree {s : Sides} (outcome : Bytes → Outcome) (listed : Exchange)
    (valid : ∀ p, s.server.tree.file? p ≠ none → isValidPath p = true)
    (hashed : ∀ p, s.dir.HashSaved p)
    (agree : ∀ p, s.dir.content? p = (s.server.tree.file? p).map File.content) :
    (reconcile s listed outcome).1.dir.tree = s.dir.tree ∧
      (reconcile s listed outcome).1.server = s.server := by
  have present : ∀ p, s.dir.tree.file? p = none ↔ s.server.tree.file? p = none := by
    intro p
    rw [← Option.map_eq_none_iff (f := File.content), ← SyncDir.content?, agree,
      Option.map_eq_none_iff]
  have validHere : ∀ p, s.dir.tree.file? p ≠ none → isValidPath p = true := fun p held =>
    valid p (mt (present p).mpr held)
  cases listed with
  | lost applied => exact ⟨rfl, rfl⟩
  | refused => exact ⟨rfl, rfl⟩
  | answered =>
    rw [reconcile_answered]
    refine reconcileLoop_of_agree outcome (fun name => ?_) (fun name h t here there => ?_) _ s
    · rw [getElem?_localFiles validHere, getElem?_remoteFiles valid, SyncDir.localFile,
        Option.map_eq_none_iff, Option.map_eq_none_iff]
      exact present name
    · rw [getElem?_localFiles validHere, SyncDir.localFile] at here
      rw [getElem?_remoteFiles valid] at there
      obtain ⟨f, file, rfl⟩ := Option.map_eq_some_iff.mp here
      obtain ⟨g, stored, rfl⟩ := Option.map_eq_some_iff.mp there
      have equal := agree name
      rw [SyncDir.content?, file, stored] at equal
      rw [SyncDir.fillHash_eq (hashed name) file, sameContent_info_iff, Option.some.inj equal]
      exact ⟨rfl, rfl⟩

/-! ## Two runs -/

section Examples

def noon : Stamp :=
  ⟨bytes "2024-05-01", bytes "12.00.00", by decide, by decide, by decide⟩

def hereOne : File := .single 1 5

def thereTwo : File := .single 2 6

/-- The file `x` on both sides. -/
def facing (here there : File) (base : ExtTreeMap Bytes FileInfo) : Sides where
  dir := ⟨((∅ : FileTree Bytes File).put (bytes "x") here).1, base⟩
  server := (∅ : UserDir).put (bytes "x") there

theorem node_one (f : File) (p : Bytes) :
    ((∅ : FileTree Bytes File).put (bytes "x") f).1.node p =
      if p = bytes "x" then some (.file f) else none := by
  have stored : ((∅ : FileTree Bytes File).put (bytes "x") f).2 = true := rfl
  have files := FileTree.file?_put stored p
  split
  · rename_i here
    rw [if_pos here] at files
    exact FileTree.file?_eq_some_iff.mp files
  · rename_i other
    rcases FileTree.node_put (∅ : FileTree Bytes File)
      (bytes "x") f p with same | ⟨here, -⟩ | ⟨above, -⟩
    · exact same.trans ExtTreeMap.getElem?_empty
    · exact absurd here other
    · exact absurd above (List.not_mem_nil (a := p))

theorem file?_one (f : File) (p : Bytes) :
    ((∅ : FileTree Bytes File).put (bytes "x") f).1.file? p =
      if p = bytes "x" then some f else none := by
  rw [FileTree.file?, node_one]
  split <;> rename_i eq <;> split at eq <;> simp_all

theorem validPaths_facing {here there : File} {base : ExtTreeMap Bytes FileInfo}
    (saved : ∀ p ∈ base, p = bytes "x") : ValidPaths (facing here there base) := by
  have one : ∀ (f : File) (p : Bytes),
      ((∅ : FileTree Bytes File).put (bytes "x") f).1.file? p ≠ none → isValidPath p = true := by
    intro f p present
    rw [file?_one, ne_eq, ite_eq_right_iff, not_forall] at present
    obtain ⟨rfl, -⟩ := present
    decide
  refine ⟨one here, one there, fun p mem => ?_⟩
  rw [saved p mem]
  decide

/-- Two edits of `x` that are not in the saved state: the local one is kept as a
conflicted copy. -/
theorem reconcile_keeps_both :
    let s := facing hereOne thereTwo ∅
    let final := (reconcile s .answered fun _ => ⟨.answered, noon⟩).1
    (∀ p g, s.server.tree.file? p = some g →
      (s.dir.base[p]?.any fun b => sameContent b (g.info p)) = false →
        final.server.tree.file? p = some g) ∧
    ∀ p f, Unsynced s p f → ∃ q g, CopyOf s (fun _ => ⟨.answered, noon⟩) p q ∧
      final.dir.tree.file? q = some g ∧ g.content = f.content := by
  have unsaved : ∀ p : Bytes, (∅ : ExtTreeMap Bytes FileInfo)[p]? = none :=
    fun _ => ExtTreeMap.getElem?_empty
  refine reconcile_keeps_unsynced
    (validPaths_facing fun p mem => absurd mem ExtTreeMap.not_mem_empty)
    ⟨fun p f base _ entry => ?_, fun p f q g mine theirs => ?_, fun q _ => ?_,
      fun q _ => .inl (unsaved q)⟩
    .answered
  · rw [show (facing _ _ ∅).dir.base = ∅ from rfl, unsaved p] at entry
    cases entry
  · have mine := (file?_one _ p).symm.trans mine
    have theirs := (file?_one _ q).symm.trans theirs
    split at mine <;> cases mine
    split at theirs <;> cases theirs
    exact fun same => absurd same (by decide +kernel)
  · refine ⟨?_, ?_, fun r present above => ?_⟩
    · rw [show (facing _ _ ∅).dir.tree.node q = _ from node_one _ q]
      split <;> nofun
    · rw [show (facing _ _ ∅).dir.tree.node q = _ from node_one _ q]
      split <;> nofun
    · rw [show (facing _ _ ∅).server.tree.file? r = _ from file?_one _ r, ne_eq,
        ite_eq_right_iff, not_forall] at present
      obtain ⟨rfl, -⟩ := present
      rw [show dirs (bytes "x") = [] by decide] at above
      exact List.not_mem_nil above

/-- A local edit that kept the saved size and modification time is taken for the
saved version, and the server's version replaces it. -/
theorem reconcile_replaces_unnoticed :
    let saved : FileInfo := ⟨bytes "x", 1, 5, fnv1a [0]⟩
    let s := facing hereOne thereTwo ((∅ : ExtTreeMap Bytes FileInfo).insert (bytes "x") saved)
    ValidPaths s ∧ (∀ p n, s.dir.tree.node p = some n → p = bytes "x") ∧
      Unsynced s (bytes "x") hereOne ∧
      ∀ p g, (reconcile s .answered fun _ => ⟨.answered, noon⟩).1.dir.tree.file? p = some g →
        g.content ≠ [1] := by
  intro saved s
  have entry : s.dir.base[bytes "x"]? = some saved :=
    (Map.getElem?_insert ..).trans (if_pos rfl)
  refine ⟨validPaths_facing fun p mem => ?_, fun p n present => ?_, ⟨?_, ?_, fun g present => ?_⟩,
    fun p g present => ?_⟩
  · rcases Map.mem_insert_iff.mp mem with here | absent
    · exact here
    · exact absurd absent ExtTreeMap.not_mem_empty
  · have present := (node_one _ p).symm.trans present
    by_contra other
    rw [if_neg other] at present
    cases present
  · exact (file?_one _ _).trans (if_pos rfl)
  · rw [entry]
    decide +kernel
  · obtain rfl : thereTwo = g :=
      Option.some.inj (((file?_one _ _).trans (if_pos rfl)).symm.trans present)
    decide +kernel
  · have all : ((reconcile s .answered fun _ => ⟨.answered, noon⟩).1.dir.tree.files.all
        fun entry => entry.2.content ≠ [1]) = true := by decide +kernel
    exact of_decide_eq_true (List.all_eq_true.mp all _ (FileTree.mem_files_iff.mpr present))

end Examples

end SisOp
