import SisOp.Client.LocalChange
import SisOp.Cluster.Resync
import SisOp.Server.Listing

/-!
# Files that cannot be read

`reconcile`, `rescan_local`, `sync_local_change` and `attach_replica` with any
choice of the calls that fail. A file that is there and cannot be read looks like
one that is not there, and each of the four deletes on the other side what is not
there.

Main result: `unread_not_deleted_iff`, for each of the four, which unread files are
taken for deleted ones.
-/

namespace SisOp

open Lib Std

/-! ## Local files -/

namespace SyncDir

/-- The hash is not computed again: size and modification time are the saved ones. -/
def saved (d : SyncDir) (name : Bytes) (file : File) : Bool :=
  d.base[name]?.any fun base =>
    decide (base.size = (file.info name).size) && decide (base.mtimeNs = file.mtime)

/-- `fill_hash`. -/
def fillHash? (d : SyncDir) (faults : Faults) (name : Bytes) (file : File) : Option FileInfo :=
  match d.base[name]? with
  | some base =>
    if base.size = (file.info name).size ∧ base.mtimeNs = file.mtime then
      some { file.info name with hash := base.hash }
    else (hashFile faults d.tree name).map fun hash => { file.info name with hash }
  | none => (hashFile faults d.tree name).map fun hash => { file.info name with hash }

/-- `local_file`, which opens the file again to hash it. -/
def localFile? (d : SyncDir) (stat hash : Faults) (name : Bytes) : Option FileInfo :=
  match statFile stat d.tree name with
  | some file => d.fillHash? hash name file
  | none => none

/-- The local files `reconcile` compares. -/
def localFiles? (d : SyncDir) (faults : Faults) : ExtTreeMap Bytes FileInfo :=
  Map.ofPairs ((listTree faults d.tree).filterMap fun entry =>
    (d.fillHash? faults entry.1 entry.2).map (Prod.mk entry.1))

variable {d : SyncDir} {faults stat hash : Faults} {name : Bytes} {f : File}

theorem fillHash?_isSome (present : d.tree.file? name = some f) :
    (d.fillHash? faults name f).isSome = true ↔
      d.saved name f = true ∨ faults.hashes name = true := by
  have hashed : (hashFile faults d.tree name).isSome = true ↔ faults.hashes name = true := by
    rw [hashFile, present]
    cases faults.hashes name <;> simp
  unfold fillHash? saved
  cases d.base[name]? with
  | none => simp [hashed]
  | some base =>
    by_cases same : base.size = (f.info name).size ∧ base.mtimeNs = f.mtime
    · simp [same]
    · dsimp only
      rw [if_neg same, Option.isSome_map, hashed, Option.any_some, Bool.and_eq_true,
        decide_eq_true_eq, decide_eq_true_eq, or_iff_right same]

/-- With no call failing this is `fillHash`. -/
theorem fillHash?_of_hashes (present : d.tree.file? name = some f)
    (hashes : faults.hashes name = true) :
    d.fillHash? faults name f = some (d.fillHash name f) := by
  have hashed : hashFile faults d.tree name = some (fnv1a f.content) := by
    rw [hashFile, if_pos hashes, present, Option.map_some]
  unfold fillHash? fillHash
  rw [hashed]
  cases d.base[name]? with
  | none => rfl
  | some base =>
    dsimp only
    split <;> rfl

theorem localFile?_eq_none (present : d.tree.file? name = some f) :
    d.localFile? stat hash name = none ↔
      ¬(stat.stats name = true ∧ (d.saved name f = true ∨ hash.hashes name = true)) := by
  unfold localFile? statFile
  cases stat.stats name with
  | false => simp
  | true =>
    simp only [if_true, present, true_and, ← fillHash?_isSome present]
    exact Option.not_isSome_iff_eq_none.symm

theorem mem_localFiles?_iff (present : d.tree.file? name = some f) :
    name ∈ d.localFiles? faults ↔ isValidPath name = true ∧ faults.reaches name = true ∧
      (d.saved name f = true ∨ faults.hashes name = true) := by
  rw [localFiles?, Map.mem_ofPairs]
  simp only [List.mem_filterMap, Prod.exists, mem_listTree_iff, Option.map_eq_some_iff,
    Prod.mk.injEq]
  constructor
  · rintro ⟨info, _, file, ⟨there, valid, reached⟩, _, filled, rfl, rfl⟩
    obtain rfl : f = file := Option.some.inj (present.symm.trans there)
    refine ⟨valid, reached, (fillHash?_isSome present).mp ?_⟩
    rw [filled, Option.isSome_some]
  · rintro ⟨valid, reached, readable⟩
    obtain ⟨info, filled⟩ := Option.isSome_iff_exists.mp ((fillHash?_isSome present).mpr readable)
    exact ⟨info, name, f, ⟨present, valid, reached⟩, info, filled, rfl, rfl⟩

/-- What the list has at a path is `fill_hash` of the file there. -/
theorem getElem?_localFiles?_iff {info : FileInfo} :
    (d.localFiles? faults)[name]? = some info ↔ ∃ f, d.tree.file? name = some f ∧
      isValidPath name = true ∧ faults.reaches name = true ∧
        d.fillHash? faults name f = some info := by
  have mem : ∀ k v, (k, v) ∈ ((listTree faults d.tree).filterMap fun entry =>
      (d.fillHash? faults entry.1 entry.2).map (Prod.mk entry.1)) ↔
        ∃ f, d.tree.file? k = some f ∧ isValidPath k = true ∧ faults.reaches k = true ∧
          d.fillHash? faults k f = some v := by
    intro k v
    simp only [List.mem_filterMap, Prod.exists, mem_listTree_iff, Option.map_eq_some_iff,
      Prod.mk.injEq]
    constructor
    · rintro ⟨_, f, ⟨present, valid, reached⟩, _, filled, rfl, rfl⟩
      exact ⟨f, present, valid, reached, filled⟩
    · rintro ⟨f, present, valid, reached, filled⟩
      exact ⟨k, f, ⟨present, valid, reached⟩, v, filled, rfl, rfl⟩
  rw [localFiles?, Map.getElem?_ofPairs, mem]
  intro k v v' left right
  obtain ⟨f, present, -, -, filled⟩ := (mem k v).mp left
  obtain ⟨g, there, -, -, filled'⟩ := (mem k v').mp right
  obtain rfl : f = g := Option.some.inj (present.symm.trans there)
  exact Option.some.inj (filled.symm.trans filled')

/-- With no call failing these are the local files. -/
theorem localFiles?_none : d.localFiles? .none = d.localFiles := by
  refine ExtTreeMap.ext_getElem? fun k => Option.ext fun info => ?_
  rw [getElem?_localFiles?_iff, localFiles, getElem?_listing_eq]
  have reached : Faults.none.reaches k = true := by
    simp [Faults.reaches, Faults.none]
  constructor
  · rintro ⟨f, present, valid, -, filled⟩
    rw [if_pos valid, present, Option.map_some, ← filled]
    exact (fillHash?_of_hashes present rfl).symm
  · intro listed
    split at listed
    · rename_i valid
      obtain ⟨f, present, rfl⟩ := Option.map_eq_some_iff.mp listed
      exact ⟨f, present, valid, reached, fillHash?_of_hashes present rfl⟩
    · cases listed

/-! ## Replacing a local file -/

/-- Some attempt finds nothing it can stat. -/
theorem exists_unseen (tree : FileTree Bytes File) (names : Faults) (name : Bytes) (stamp : Stamp) :
    ((conflictAttempts tree name stamp).find? fun c => statFile names tree c = none).isSome =
      true := by
  obtain ⟨c, mem, free⟩ := List.find?_isSome.mp (exists_conflict_free tree name stamp)
  refine List.find?_isSome.mpr ⟨c, mem, decide_eq_true ?_⟩
  rw [statFile, of_decide_eq_true free, ite_self]

/-- `conflict_name`, which takes a file it cannot stat for a free name. -/
def conflictName? (tree : FileTree Bytes File) (names : Faults) (name : Bytes) (stamp : Stamp) :
    Bytes :=
  ((conflictAttempts tree name stamp).find? fun c => statFile names tree c = none).get
    (exists_unseen tree names name stamp)

theorem conflictName?_none (tree : FileTree Bytes File) (stamp : Stamp) :
    conflictName? tree .none name stamp = conflictName tree name stamp := rfl

end SyncDir

/-- What happens at one path, with the calls that fail: the first opening of the
local file, the one that hashes it, and those that look for a free name. -/
structure Turn extends Outcome where
  stat : Faults
  hash : Faults
  names : Faults

namespace SyncDir

/-- The local file moved to its conflicted-copy name. -/
def keepCopy? (d : SyncDir) (name : Bytes) (t : Turn) : SyncDir :=
  match d.tree.rename name (conflictName? d.tree t.names name t.stamp) with
  | some tree => { d with tree }
  | none => d

/-- `install`. -/
def install? (d : SyncDir) (name : Bytes) (temp : File) (t : Turn) : SyncDir :=
  let changed := match d.localFile? t.stat t.hash name with
    | some current => !sameContent current (temp.info name) &&
        !d.base[name]?.any fun base => sameContent base current
    | none => false
  (if changed then d.keepCopy? name t else d).moveIn name temp

theorem install?_none (d : SyncDir) (name : Bytes) (temp : File) (o : Outcome) :
    d.install? name temp ⟨o, .none, .none, .none⟩ = d.install name temp o.stamp := by
  have current : d.localFile? .none .none name = d.localFile name := by
    unfold localFile? localFile statFile
    cases present : d.tree.file? name with
    | none => rfl
    | some f => exact fillHash?_of_hashes present rfl
  unfold install? install makeWay unsynced
  rw [current]
  rfl

/-- `install` leaves the records of the other files. -/
theorem base_install?_of_ne {d : SyncDir} {name q : Bytes} (other : q ≠ name) (temp : File)
    (t : Turn) : (d.install? name temp t).base[q]? = d.base[q]? := by
  have kept : ∀ changed : Bool, (if changed then d.keepCopy? name t else d).base = d.base := by
    intro changed
    unfold keepCopy?
    split
    · split <;> rfl
    · rfl
  rw [install?, base_moveIn_of_ne other, kept]

end SyncDir

namespace Unreadable

/-! ## What a run deletes -/

/-- A Delete sent to the server, or the local copy deleted. -/
inductive Deed where
  | askDelete
  | deleteOwn
  deriving DecidableEq, Repr

/-- The two sides, and what was deleted so far. -/
structure Report where
  sides : Sides
  log : List (Bytes × Deed)

namespace Report

def forget (r : Report) (name : Bytes) : Report :=
  { r with sides.dir.base := r.sides.dir.base.erase name }

def record (r : Report) (name : Bytes) (info : FileInfo) : Report :=
  { r with sides.dir.base := r.sides.dir.base.insert name info }

/-- The file is uploaded, and recorded when that went through. -/
def push (r : Report) (name : Bytes) (here : FileInfo) (e : Exchange) : Report × CallResult :=
  let sent := upload r.sides.dir r.sides.server name e
  let r := { r with sides.server := sent.1 }
  (if sent.2 = .ok then r.record name here else r, sent.2)

/-- A Delete is sent, and the record dropped unless the connection is lost. -/
def askDelete (r : Report) (name : Bytes) (e : Exchange) : Report × CallResult :=
  let removed := removeRemote r.sides.server name e
  let r : Report := { r with sides.server := removed.1, log := r.log ++ [(name, .askDelete)] }
  (if removed.2 = .failed then r else r.forget name, removed.2)

/-- The server's version is downloaded and installed. -/
def pull (r : Report) (name : Bytes) (t : Turn) : Report × CallResult :=
  match download r.sides.server name t.exchange with
  | (some temp, result) => ({ r with sides.dir := r.sides.dir.install? name temp t }, result)
  | (none, result) => (r, result)

/-- The local file is removed. -/
def deleteOwn (r : Report) (name : Bytes) : Report :=
  { r.forget name with
    sides.dir.tree := removeLocal r.sides.dir.tree name
    log := r.log ++ [(name, .deleteOwn)] }

end Report

/-- The body of the loop of `reconcile`. -/
def reconcileName (here there : Option FileInfo) (t : Turn) (r : Report) (name : Bytes) :
    Report × CallResult :=
  let base := r.sides.dir.base[name]?
  match here, there with
  | none, none => (r.forget name, .ok)
  | some h, some th =>
    if sameContent h th then (r.record name h, .ok)
    else if shouldPush base here there then r.push name h t.exchange
    else r.pull name t
  | some h, none =>
    if shouldPush base here there then r.push name h t.exchange else (r.deleteOwn name, .ok)
  | none, some _ =>
    if shouldPush base here there then r.askDelete name t.exchange else r.pull name t

def reconcileLoop (here there : Bytes → Option FileInfo) (turn : Bytes → Turn) :
    List Bytes → Report → Report × Bool
  | [], r => (r, true)
  | name :: names, r =>
    let one := reconcileName (here name) (there name) (turn name) r name
    if one.2 = .failed then (one.1, false) else reconcileLoop here there turn names one.1

/-- The server's list: entries with invalid names are left out, a later entry
replaces an earlier one. -/
def remoteMap (remote : List FileInfo) : ExtTreeMap Bytes FileInfo :=
  Map.ofPairs ((remote.filter fun file => isValidPath file.name).map fun file => (file.name, file))

/-- Every name of either list or of the saved state, in order. -/
def names (here there base : ExtTreeMap Bytes FileInfo) : List Bytes :=
  (Map.ofPairs ((here.keys ++ there.keys ++ base.keys).map fun name => (name, ()))).keys

/-- `Client::reconcile`; `remote` is what the server lists, when it does. -/
def reconcile (faults : Faults) (listed : Exchange) (remote : List FileInfo) (turn : Bytes → Turn)
    (s : Sides) : Report × Bool :=
  match listed with
  | .lost _ => (⟨s, []⟩, false)
  | .refused => (⟨s, []⟩, true)
  | .answered =>
    let here := s.dir.localFiles? faults
    let there := remoteMap remote
    reconcileLoop (here[·]?) (there[·]?) turn (names here there s.dir.base) ⟨s, []⟩

/-- `sync_local_change`. -/
def syncLocalChange (t : Turn) (r : Report) (name : Bytes) : Report × CallResult :=
  match r.sides.dir.localFile? t.stat t.hash name, r.sides.dir.base[name]? with
  | some here, base =>
    if base.any fun b => sameContent b here then (r, .ok) else r.push name here t.exchange
  | none, some _ => r.askDelete name t.exchange
  | none, none => (r, .ok)

/-- `rescan_local`. -/
def rescanLocal (faults : Faults) (turn : Bytes → Turn) (s : Sides) : Report :=
  let found := Map.ofPairs (((listTree faults s.dir.tree).map Prod.fst ++ s.dir.base.keys).map
    fun name => (name, ()))
  found.keys.foldl (fun r name => (syncLocalChange (turn name) r name).1) ⟨s, []⟩

/-! ## Runs in which no call fails -/

/-- With no call failing the loop body is that of the model of `reconcile`. -/
theorem reconcileName_none (here there : Option FileInfo) (o : Outcome) (r : Report)
    (name : Bytes) :
    (reconcileName here there ⟨o, .none, .none, .none⟩ r name).1.sides =
        (SisOp.reconcileName here there o r.sides name).1 ∧
      (reconcileName here there ⟨o, .none, .none, .none⟩ r name).2 =
        (SisOp.reconcileName here there o r.sides name).2 := by
  have push : ∀ h, (r.push name h o.exchange).1.sides =
        (SisOp.reconcileName.push o name r.sides h).1 ∧
      (r.push name h o.exchange).2 = (SisOp.reconcileName.push o name r.sides h).2 := by
    intro h
    unfold Report.push SisOp.reconcileName.push
    dsimp only
    split <;> exact ⟨rfl, rfl⟩
  have pull : (r.pull name ⟨o, .none, .none, .none⟩).1.sides =
        (SisOp.reconcileName.pull o name r.sides).1 ∧
      (r.pull name ⟨o, .none, .none, .none⟩).2 = (SisOp.reconcileName.pull o name r.sides).2 := by
    unfold Report.pull SisOp.reconcileName.pull
    dsimp only
    rcases download r.sides.server name o.exchange with ⟨temp | temp, result⟩
    · exact ⟨rfl, rfl⟩
    · simp only [SyncDir.install?_none, and_self]
  unfold reconcileName SisOp.reconcileName
  cases here with
  | none =>
    cases there with
    | none => exact ⟨rfl, rfl⟩
    | some th =>
      dsimp only
      split
      · refine ⟨?_, rfl⟩
        unfold Report.askDelete
        dsimp only
        split <;> rfl
      · exact pull
  | some h =>
    cases there with
    | none =>
      dsimp only
      split
      · exact push h
      · exact ⟨rfl, rfl⟩
    | some th =>
      dsimp only
      split
      · exact ⟨rfl, rfl⟩
      · split
        · exact push h
        · exact pull

/-! ## What is deleted, and why -/

/-- What is deleted at a path. -/
def deed (base here there : Option FileInfo) : Option Deed :=
  match here, there with
  | none, some _ => if shouldPush base here there then some .askDelete else none
  | some _, none => if shouldPush base here there then none else some .deleteOwn
  | _, _ => none

variable {base here there : Option FileInfo} {t : Turn} {r : Report} {name q : Bytes}

/-- The server is asked to delete what looks deleted here and is still the
recorded version there. -/
theorem deed_eq_askDelete_iff : deed base here there = some .askDelete ↔
    here = none ∧ ∃ b th, base = some b ∧ there = some th ∧ sameContent b th = true := by
  cases here <;> cases there <;> cases base <;> simp [deed, shouldPush]

/-- The local copy is deleted when it looks deleted on the server and is still
the recorded version. -/
theorem deed_eq_deleteOwn_iff : deed base here there = some .deleteOwn ↔
    there = none ∧ ∃ b h, base = some b ∧ here = some h ∧ sameContent b h = true := by
  cases here <;> cases there <;> cases base <;> simp [deed, shouldPush]

theorem log_push (h : FileInfo) (e : Exchange) : (r.push name h e).1.log = r.log := by
  unfold Report.push
  dsimp only
  split <;> rfl

theorem log_pull : (r.pull name t).1.log = r.log := by
  unfold Report.pull
  split <;> rfl

theorem log_askDelete (e : Exchange) :
    (r.askDelete name e).1.log = r.log ++ [(name, .askDelete)] := by
  unfold Report.askDelete
  dsimp only
  split <;> rfl

theorem log_reconcileName : (reconcileName here there t r name).1.log =
    r.log ++ ((deed r.sides.dir.base[name]? here there).map (Prod.mk name)).toList := by
  have nothing : r.log = r.log ++ [] := (List.append_nil _).symm
  unfold reconcileName deed
  cases here with
  | none =>
    cases there with
    | none => exact nothing
    | some th =>
      dsimp only
      split
      · exact log_askDelete _
      · exact log_pull.trans nothing
  | some h =>
    cases there with
    | none =>
      dsimp only
      split
      · exact (log_push h _).trans nothing
      · rfl
    | some th =>
      dsimp only
      split
      · exact nothing
      · split
        · exact (log_push h _).trans nothing
        · exact log_pull.trans nothing

/-- A path's turn leaves the records of the others. -/
theorem base_push (other : q ≠ name) (h : FileInfo) (e : Exchange) :
    (r.push name h e).1.sides.dir.base[q]? = r.sides.dir.base[q]? := by
  unfold Report.push
  dsimp only
  split
  · exact (Map.getElem?_insert ..).trans (if_neg other)
  · rfl

theorem base_askDelete (other : q ≠ name) (e : Exchange) :
    (r.askDelete name e).1.sides.dir.base[q]? = r.sides.dir.base[q]? := by
  unfold Report.askDelete
  dsimp only
  split
  · rfl
  · exact (Map.getElem?_erase ..).trans (if_neg other)

theorem base_pull (other : q ≠ name) :
    (r.pull name t).1.sides.dir.base[q]? = r.sides.dir.base[q]? := by
  unfold Report.pull
  split
  · exact SyncDir.base_install?_of_ne other _ t
  · rfl

theorem base_reconcileName (other : q ≠ name) :
    (reconcileName here there t r name).1.sides.dir.base[q]? = r.sides.dir.base[q]? := by
  have erased : (r.sides.dir.base.erase name)[q]? = r.sides.dir.base[q]? :=
    (Map.getElem?_erase ..).trans (if_neg other)
  unfold reconcileName
  cases here with
  | none =>
    cases there with
    | none => exact erased
    | some th =>
      dsimp only
      split
      · exact base_askDelete other _
      · exact base_pull other
  | some h =>
    cases there with
    | none =>
      dsimp only
      split
      · exact base_push other h _
      · exact erased
    | some th =>
      dsimp only
      split
      · exact (Map.getElem?_insert ..).trans (if_neg other)
      · split
        · exact base_push other h _
        · exact base_pull other

/-- An answered exchange does not lose the connection. -/
theorem reconcileName_answered (answered : t.exchange = .answered) :
    (reconcileName here there t r name).2 ≠ .failed := by
  have push : ∀ h, (r.push name h t.exchange).2 ≠ .failed := by
    intro h
    unfold Report.push upload
    rw [answered]
    cases r.sides.dir.tree.file? name with
    | none => nofun
    | some f =>
      dsimp only
      split <;> nofun
  have pull : (r.pull name t).2 ≠ .failed := by
    unfold Report.pull download
    rw [answered]
    cases r.sides.server.tree.file? name <;> nofun
  unfold reconcileName
  cases here with
  | none =>
    cases there with
    | none => nofun
    | some th =>
      dsimp only
      split
      · unfold Report.askDelete removeRemote
        rw [answered]
        dsimp only
        split <;> nofun
      · exact pull
  | some h =>
    cases there with
    | none =>
      dsimp only
      split
      · exact push h
      · nofun
    | some th =>
      dsimp only
      split
      · nofun
      · split
        · exact push h
        · exact pull

/-! ## Whole runs -/

section Loop

variable {here there : Bytes → Option FileInfo} {turn : Bytes → Turn} {p : Bytes} {e : Deed}

theorem mem_log_of_reconcileLoop {names : List Bytes} (nodup : names.Nodup)
    (logged : (p, e) ∈ (reconcileLoop here there turn names r).1.log) :
    (p, e) ∈ r.log ∨
      p ∈ names ∧ deed r.sides.dir.base[p]? (here p) (there p) = some e := by
  induction names generalizing r with
  | nil => exact .inl logged
  | cons name names ih =>
    obtain ⟨new, rest⟩ := List.nodup_cons.mp nodup
    have one : (p, e) ∈ (reconcileName (here name) (there name) (turn name) r name).1.log →
        (p, e) ∈ r.log ∨
          p ∈ name :: names ∧ deed r.sides.dir.base[p]? (here p) (there p) = some e := by
      intro mem
      rw [log_reconcileName] at mem
      rcases List.mem_append.mp mem with before | now
      · exact .inl before
      · obtain ⟨did, deedIs, same⟩ := Option.map_eq_some_iff.mp (Option.mem_toList.mp now)
        obtain ⟨rfl, rfl⟩ := Prod.mk.inj same
        exact .inr ⟨List.mem_cons_self, deedIs⟩
    rw [reconcileLoop] at logged
    split at logged
    · exact one logged
    · rcases ih rest logged with before | ⟨mem, later⟩
      · exact one before
      · have other : p ≠ name := fun same => new (same ▸ mem)
        rw [base_reconcileName other] at later
        exact .inr ⟨List.mem_cons_of_mem _ mem, later⟩

/-- When every exchange is answered the loop gets to every path. -/
theorem mem_log_reconcileLoop {names : List Bytes} (nodup : names.Nodup)
    (answered : ∀ name, (turn name).exchange = .answered)
    (due : (p, e) ∈ r.log ∨
      p ∈ names ∧ deed r.sides.dir.base[p]? (here p) (there p) = some e) :
    (p, e) ∈ (reconcileLoop here there turn names r).1.log := by
  induction names generalizing r with
  | nil =>
    rcases due with logged | ⟨mem, -⟩
    · exact logged
    · cases mem
  | cons name names ih =>
    obtain ⟨new, rest⟩ := List.nodup_cons.mp nodup
    rw [reconcileLoop, if_neg (reconcileName_answered (answered name))]
    refine ih rest ?_
    rw [log_reconcileName]
    rcases due with logged | ⟨mem, deedIs⟩
    · exact .inl (List.mem_append_left _ logged)
    · rcases List.mem_cons.mp mem with rfl | mem
      · refine .inl (List.mem_append_right _ ?_)
        rw [deedIs]
        exact List.mem_singleton_self _
      · have other : p ≠ name := fun same => new (same ▸ mem)
        rw [base_reconcileName other]
        exact .inr ⟨mem, deedIs⟩

end Loop

section Runs

variable {s : Sides} {faults : Faults} {remote : List FileInfo} {p : Bytes} {e : Deed}

theorem nodup_keys {β : Type} (m : ExtTreeMap Bytes β) : m.keys.Nodup :=
  ExtTreeMap.distinct_keys.imp fun apart same => apart (Std.compare_eq_iff_eq.mpr same)

theorem nodup_names (here there base : ExtTreeMap Bytes FileInfo) : (names here there base).Nodup :=
  nodup_keys _

/-- What a reconcile can delete is decided by the two lists and the records. -/
theorem reconcile_deletes_iff :
    (∃ listed turn, (p, e) ∈ (reconcile faults listed remote turn s).1.log) ↔
      deed s.dir.base[p]? (s.dir.localFiles? faults)[p]? (remoteMap remote)[p]? = some e := by
  constructor
  · rintro ⟨listed, turn, logged⟩
    cases listed with
    | lost | refused => cases logged
    | answered =>
      rcases mem_log_of_reconcileLoop (nodup_names _ _ _) logged with before | ⟨-, due⟩
      · cases before
      · exact due
  · intro due
    have recorded : p ∈ s.dir.base := by
      rw [Map.mem_iff_ne_none]
      intro absent
      rw [absent] at due
      cases e with
      | askDelete =>
        obtain ⟨-, b, th, entry, -⟩ := deed_eq_askDelete_iff.mp due
        cases entry
      | deleteOwn =>
        obtain ⟨-, b, h, entry, -⟩ := deed_eq_deleteOwn_iff.mp due
        cases entry
    have named : p ∈ names (s.dir.localFiles? faults) (remoteMap remote) s.dir.base := by
      rw [names, ExtTreeMap.mem_keys, Map.mem_ofPairs]
      refine ⟨(), List.mem_map_of_mem (List.mem_append_right _ ?_)⟩
      exact ExtTreeMap.mem_keys.mpr recorded
    exact ⟨.answered, fun _ => ⟨⟨.answered, noon⟩, .none, .none, .none⟩,
      mem_log_reconcileLoop (nodup_names _ _ _) (fun _ => rfl) (.inr ⟨named, due⟩)⟩

theorem log_syncLocalChange (t : Turn) (r : Report) (name : Bytes) :
    (syncLocalChange t r name).1.log = r.log ++
      if r.sides.dir.localFile? t.stat t.hash name = none ∧ r.sides.dir.base[name]? ≠ none then
        [(name, .askDelete)]
      else [] := by
  unfold syncLocalChange
  cases r.sides.dir.localFile? t.stat t.hash name with
  | some here =>
    have nothing : ¬(some here = none ∧ r.sides.dir.base[name]? ≠ none) := by
      rintro ⟨gone, -⟩
      cases gone
    dsimp only
    rw [if_neg nothing, List.append_nil]
    split
    · rfl
    · exact log_push _ _
  | none =>
    cases r.sides.dir.base[name]? with
    | none =>
      rw [if_neg fun both => both.2 rfl, List.append_nil]
    | some b =>
      rw [if_pos ⟨rfl, Option.some_ne_none b⟩]
      exact log_askDelete _

/-- `sync_local_change` leaves the local files and the other records. -/
theorem tree_syncLocalChange (t : Turn) (r : Report) (name : Bytes) :
    (syncLocalChange t r name).1.sides.dir.tree = r.sides.dir.tree := by
  unfold syncLocalChange
  split
  · split
    · rfl
    · unfold Report.push
      dsimp only
      split <;> rfl
  · unfold Report.askDelete
    dsimp only
    split <;> rfl
  · rfl

theorem base_syncLocalChange (t : Turn) (r : Report) {name q : Bytes} (other : q ≠ name) :
    (syncLocalChange t r name).1.sides.dir.base[q]? = r.sides.dir.base[q]? := by
  unfold syncLocalChange
  split
  · split
    · rfl
    · exact base_push other _ _
  · exact base_askDelete other _
  · rfl

theorem localFile?_congr {d d' : SyncDir} (tree : d'.tree = d.tree) {name : Bytes}
    (base : d'.base[name]? = d.base[name]?) (stat hash : Faults) :
    d'.localFile? stat hash name = d.localFile? stat hash name := by
  unfold SyncDir.localFile? SyncDir.fillHash?
  rw [tree, base]

theorem mem_log_foldl_iff {turn : Bytes → Turn} {names : List Bytes} (nodup : names.Nodup) :
    (p, e) ∈ (names.foldl (fun r name => (syncLocalChange (turn name) r name).1) r).log ↔
      (p, e) ∈ r.log ∨ p ∈ names ∧ e = .askDelete ∧
        r.sides.dir.localFile? (turn p).stat (turn p).hash p = none ∧
          r.sides.dir.base[p]? ≠ none := by
  induction names generalizing r with
  | nil => simp
  | cons name names ih =>
    obtain ⟨new, rest⟩ := List.nodup_cons.mp nodup
    rw [List.foldl_cons, ih rest, log_syncLocalChange, List.mem_append, or_assoc]
    refine or_congr_right ?_
    by_cases same : p = name
    · subst p
      simp only [new, false_and, or_false, List.mem_cons_self, true_and]
      split
      · rename_i due
        rw [List.mem_singleton, Prod.mk.injEq, and_iff_right rfl, and_iff_left due]
      · rename_i notDue
        exact ⟨fun mem => (List.not_mem_nil mem).elim, fun due => absurd due.2 notDue⟩
    · rw [base_syncLocalChange _ _ same,
        localFile?_congr (tree_syncLocalChange _ _ _) (base_syncLocalChange _ _ same)]
      have elsewhere : ∀ c : Prop, ∀ [Decidable c],
          ¬(p, e) ∈ if c then [(name, Deed.askDelete)] else [] := by
        intro c _ mem
        split at mem
        · exact same (Prod.mk.inj (List.mem_singleton.mp mem)).1
        · cases mem
      simp only [elsewhere, false_or, List.mem_cons, same]

/-- A rescan asks for the deletion of every recorded file it cannot read. -/
theorem rescanLocal_deletes_iff {turn : Bytes → Turn} :
    (p, e) ∈ (rescanLocal faults turn s).log ↔ e = .askDelete ∧
      s.dir.localFile? (turn p).stat (turn p).hash p = none ∧ s.dir.base[p]? ≠ none := by
  rw [rescanLocal, mem_log_foldl_iff (nodup_keys _)]
  constructor
  · rintro (before | ⟨-, due⟩)
    · cases before
    · exact due
  · intro due
    refine .inr ⟨?_, due⟩
    rw [ExtTreeMap.mem_keys, Map.mem_ofPairs]
    refine ⟨(), List.mem_map_of_mem (List.mem_append_right _ (ExtTreeMap.mem_keys.mpr ?_))⟩
    exact Map.mem_iff_ne_none.mpr due.2.2

end Runs

/-! ## Bringing a backup up to date -/

/-- The primary's own files, listed user by user. -/
def localEntries (store : Storage) (root : Bytes) (faults : StoreFaults) :
    List Bytes → HashCache → List (FileKey × FileInfo)
  | [], _ => []
  | user :: users, cache =>
    let one := store.listFound root faults user cache
    (one.1.map fun file => (⟨user, file.name⟩, file)) ++ localEntries store root faults users one.2

/-- The map `attach_replica` compares with the manifest. -/
def localMap (store : Storage) (root : Bytes) (faults : StoreFaults) (cache : HashCache) :
    ExtTreeMap FileKey FileInfo :=
  Map.ofPairs (localEntries store root faults (store.usersFound faults) cache)

/-- A request on a replication link. -/
inductive LinkRequest where
  | account (user record : Bytes)
  | put (key : FileKey)
  | delete (key : FileKey)
  deriving DecidableEq

/-- What `attach_replica` sends after the manifest, when every request succeeds. -/
def attachRequests (primary : Replica) (locals : ExtTreeMap FileKey FileInfo)
    (accounts : List (Bytes × Bytes)) (files : List (FileKey × FileInfo)) : List LinkRequest :=
  ((accountsToSend primary (Map.ofPairs accounts)).map fun account =>
      .account account.1 account.2) ++
    ((filesToPut locals (Map.ofPairs files)).map fun entry => .put entry.1) ++
    (filesToDelete locals (Map.ofPairs files)).map fun entry => .delete entry.1

/-- What is sent up to the first request that fails. -/
def sentOnLink (succeeds : LinkRequest → Bool) : List LinkRequest → List LinkRequest
  | [] => []
  | request :: requests =>
    request :: if succeeds request then sentOnLink succeeds requests else []

section Attach

variable {store : Storage} {root user p : Bytes} {faults : StoreFaults} {cache : HashCache}
  {f : File} {primary : Replica} {accounts : List (Bytes × Bytes)}
  {files : List (FileKey × FileInfo)}

/-- Everything needed to list a stored file goes through. -/
def Lists (root : Bytes) (faults : StoreFaults) (cache : HashCache) (key : FileKey) (f : File) :
    Prop :=
  isValidUsername key.user = true ∧ isValidPath key.name = true ∧
    faults.opendir = false ∧ faults.stat key.user = false ∧
    (faults.files key.user).reaches key.name = true ∧
    ((cache.lookUp (filePath root key.user key.name) key.name f).isSome = true ∨
      (faults.files key.user).hashes key.name = true)

theorem mem_localEntries_iff (valid : isValidUsername user = true)
    (there : store.file? user p = some f) {users : List Bytes} (nodup : users.Nodup)
    (usersValid : ∀ u ∈ users, isValidUsername u = true) (cache : HashCache) :
    (∃ info, (⟨user, p⟩, info) ∈ localEntries store root faults users cache) ↔
      user ∈ users ∧ isValidPath p = true ∧ (faults.files user).reaches p = true ∧
        ((cache.lookUp (filePath root user p) p f).isSome = true ∨
          (faults.files user).hashes p = true) := by
  induction users generalizing cache with
  | nil => simp [localEntries]
  | cons u users ih =>
    obtain ⟨new, rest⟩ := List.nodup_cons.mp nodup
    have later := ih rest (fun v mem => usersValid v (List.mem_cons_of_mem _ mem))
      (store.listFound root faults u cache).2
    have first : (∃ info, ((⟨user, p⟩ : FileKey), info) ∈
          (store.listFound root faults u cache).1.map fun file => (⟨u, file.name⟩, file)) ↔
        user = u ∧ ∃ info ∈ (store.listFound root faults u cache).1, info.name = p := by
      simp only [List.mem_map, Prod.mk.injEq, FileKey.mk.injEq]
      constructor
      · rintro ⟨_, info, mem, ⟨rfl, same⟩, -⟩
        exact ⟨rfl, info, mem, same⟩
      · rintro ⟨rfl, info, mem, same⟩
        exact ⟨info, info, mem, ⟨rfl, same⟩, rfl⟩
    simp only [localEntries, List.mem_append, exists_or, first, later, List.mem_cons]
    by_cases same : user = u
    · subst u
      rw [Storage.listed_iff valid there]
      simp only [new, false_and, or_false, true_and]
    · rw [Storage.lookUp_listFound (usersValid u List.mem_cons_self) valid same]
      simp only [same, false_and, false_or]

/-- A stored file is in the map when it can be listed. -/
theorem mem_localMap_iff {key : FileKey} (there : store.file? key.user key.name = some f) :
    key ∈ localMap store root faults cache ↔ Lists root faults cache key f := by
  have present : store.file? key.user key.name ≠ none := by rw [there]; nofun
  have nodup : (store.usersFound faults).Nodup := by
    unfold Storage.usersFound
    split
    · exact List.nodup_nil
    · exact ((nodup_keys _).filter _).filter _
  rw [localMap, Map.mem_ofPairs]
  by_cases valid : isValidUsername key.user = true
  · rw [show key = ⟨key.user, key.name⟩ from rfl,
      mem_localEntries_iff valid there nodup (fun _ => Storage.isValidUsername_of_mem_usersFound),
      Storage.mem_usersFound_iff present, Lists]
    tauto
  · have unlisted : ∀ (users : List Bytes) (cache : HashCache), key.user ∉ users →
        ¬∃ info, (key, info) ∈ localEntries store root faults users cache := by
      intro users
      induction users with
      | nil =>
        rintro cache - ⟨info, mem⟩
        cases mem
      | cons u users ih =>
        rintro cache other ⟨info, mem⟩
        rcases List.mem_append.mp mem with here | later
        · obtain ⟨file, -, same⟩ := List.mem_map.mp here
          exact other (by rw [← (Prod.mk.inj same).1]; exact List.mem_cons_self)
        · exact ih _ (fun mem => other (List.mem_cons_of_mem _ mem)) ⟨info, later⟩
    constructor
    · intro listed
      exact absurd listed (unlisted _ _ fun mem =>
        valid (Storage.isValidUsername_of_mem_usersFound mem))
    · intro lists
      exact absurd lists.1 valid

/-- What can be deleted on the backup is in its manifest and was not listed. -/
theorem attach_deletes_iff {locals : ExtTreeMap FileKey FileInfo} {key : FileKey} :
    (∃ succeeds, .delete key ∈
        sentOnLink succeeds (attachRequests primary locals accounts files)) ↔
      (∃ info, (key, info) ∈ files) ∧ key ∉ locals := by
  have sub : ∀ (succeeds : LinkRequest → Bool) (requests : List LinkRequest) (r : LinkRequest),
      r ∈ sentOnLink succeeds requests → r ∈ requests := by
    intro succeeds requests r
    induction requests with
    | nil => exact id
    | cons request requests ih =>
      intro sent
      rcases List.mem_cons.mp sent with rfl | sent
      · exact List.mem_cons_self
      · split at sent
        · exact List.mem_cons_of_mem _ (ih sent)
        · cases sent
  have all : ∀ requests : List LinkRequest, sentOnLink (fun _ => true) requests = requests := by
    intro requests
    induction requests with
    | nil => rfl
    | cons request requests ih => rw [sentOnLink, if_pos rfl, ih]
  have asked : LinkRequest.delete key ∈ attachRequests primary locals accounts files ↔
      (∃ info, (key, info) ∈ files) ∧ key ∉ locals := by
    simp only [attachRequests, List.mem_append, List.mem_map, reduceCtorEq, and_false, exists_false,
      false_or, LinkRequest.delete.injEq, filesToDelete, List.mem_filter, Map.mem_toList_iff,
      decide_eq_true_eq, Prod.exists]
    rw [← Map.mem_ofPairs, Map.mem_iff_ne_none, Option.ne_none_iff_exists', Map.mem_iff_ne_none,
      not_not]
    constructor
    · rintro ⟨k, info, ⟨listed, absent⟩, rfl⟩
      exact ⟨⟨info, listed⟩, absent⟩
    · rintro ⟨⟨info, listed⟩, absent⟩
      exact ⟨key, info, ⟨listed, absent⟩, rfl⟩
  rw [← asked]
  constructor
  · rintro ⟨succeeds, sent⟩
    exact sub succeeds _ _ sent
  · intro due
    exact ⟨fun _ => true, by rwa [all]⟩

end Attach

/-! ## The result -/

theorem mem_remoteMap_iff {remote : List FileInfo} {p : Bytes} :
    p ∈ remoteMap remote ↔ isValidPath p = true ∧ ∃ info ∈ remote, info.name = p := by
  rw [remoteMap, Map.mem_ofPairs]
  simp only [List.mem_map, List.mem_filter, Prod.mk.injEq]
  constructor
  · rintro ⟨info, _, ⟨mem, valid⟩, rfl, rfl⟩
    exact ⟨valid, _, mem, rfl⟩
  · rintro ⟨valid, info, mem, rfl⟩
    exact ⟨info, info, ⟨mem, valid⟩, rfl, rfl⟩

theorem isValidPath_of_remoteMap {remote : List FileInfo} {p : Bytes} {info : FileInfo}
    (listed : (remoteMap remote)[p]? = some info) : isValidPath p = true := by
  have mem : p ∈ remoteMap remote := Map.mem_iff_ne_none.mpr (listed ▸ Option.some_ne_none info)
  exact (mem_remoteMap_iff.mp mem).1

theorem localFile?_ne_none_iff {d : SyncDir} {t : Turn} {name : Bytes} {f : File}
    (present : d.tree.file? name = some f) :
    d.localFile? t.stat t.hash name ≠ none ↔
      t.stat.stats name = true ∧ (d.saved name f = true ∨ t.hash.hashes name = true) := by
  rw [ne_eq, SyncDir.localFile?_eq_none present, not_not]

/-! Each way to delete leaves alone what is there exactly when what is there is read. -/

theorem syncLocalChange_spares_iff (s : Sides) (name : Bytes) (t : Turn) :
    (∀ p, (p, .askDelete) ∈ (syncLocalChange t ⟨s, []⟩ name).1.log → s.dir.tree.file? p = none) ↔
      ∀ f, s.dir.tree.file? name = some f → s.dir.base[name]? ≠ none →
        t.stat.stats name = true ∧ (s.dir.saved name f = true ∨ t.hash.hashes name = true) := by
  have sent : ∀ p, (p, Deed.askDelete) ∈ (syncLocalChange t ⟨s, []⟩ name).1.log ↔
      p = name ∧ s.dir.localFile? t.stat t.hash name = none ∧ s.dir.base[name]? ≠ none := by
    intro p
    rw [log_syncLocalChange, List.nil_append]
    split
    · rename_i due
      rw [List.mem_singleton, Prod.mk.injEq, and_iff_left rfl, and_iff_left due]
    · rename_i notDue
      exact ⟨fun mem => (List.not_mem_nil mem).elim, fun due => absurd due.2 notDue⟩
  constructor
  · intro kept f present recorded
    refine (localFile?_ne_none_iff present).mp fun unread => ?_
    have absent := kept name ((sent name).mpr ⟨rfl, unread, recorded⟩)
    exact nomatch present.symm.trans absent
  · intro readable p asked
    obtain ⟨rfl, unread, recorded⟩ := (sent p).mp asked
    by_contra there
    obtain ⟨f, present⟩ := Option.ne_none_iff_exists'.mp there
    exact (localFile?_ne_none_iff present).mpr (readable f present recorded) unread

theorem rescanLocal_spares_iff (s : Sides) (faults : Faults) (turn : Bytes → Turn) :
    (∀ p, (p, .askDelete) ∈ (rescanLocal faults turn s).log → s.dir.tree.file? p = none) ↔
      ∀ p f, s.dir.tree.file? p = some f → s.dir.base[p]? ≠ none →
        (turn p).stat.stats p = true ∧
          (s.dir.saved p f = true ∨ (turn p).hash.hashes p = true) := by
  constructor
  · intro kept p f present recorded
    refine (localFile?_ne_none_iff present).mp fun unread => ?_
    have absent := kept p (rescanLocal_deletes_iff.mpr ⟨rfl, unread, recorded⟩)
    exact nomatch present.symm.trans absent
  · intro readable p asked
    obtain ⟨-, unread, recorded⟩ := rescanLocal_deletes_iff.mp asked
    by_contra there
    obtain ⟨f, present⟩ := Option.ne_none_iff_exists'.mp there
    exact (localFile?_ne_none_iff present).mpr (readable p f present recorded) unread

theorem reconcile_spares_remote_iff (s : Sides) (faults : Faults) (remote : List FileInfo) :
    (∀ listed turn p, (p, .askDelete) ∈ (reconcile faults listed remote turn s).1.log →
        s.dir.tree.file? p = none) ↔
      ∀ p f b th, s.dir.tree.file? p = some f → s.dir.base[p]? = some b →
        (remoteMap remote)[p]? = some th → sameContent b th = true →
          faults.reaches p = true ∧ (s.dir.saved p f = true ∨ faults.hashes p = true) := by
  constructor
  · intro kept p f b th present recorded listed same
    have valid := isValidPath_of_remoteMap listed
    by_contra unread
    have absent : (s.dir.localFiles? faults)[p]? = none := by
      by_contra there
      exact unread ((SyncDir.mem_localFiles?_iff present).mp (Map.mem_iff_ne_none.mpr there)).2
    obtain ⟨answer, turn, asked⟩ := reconcile_deletes_iff.mpr
      (deed_eq_askDelete_iff.mpr ⟨absent, b, th, recorded, listed, same⟩)
    exact nomatch present.symm.trans (kept answer turn p asked)
  · intro readable listed turn p asked
    obtain ⟨absent, b, th, recorded, there, same⟩ :=
      deed_eq_askDelete_iff.mp (reconcile_deletes_iff.mp ⟨listed, turn, asked⟩)
    by_contra exists_
    obtain ⟨f, present⟩ := Option.ne_none_iff_exists'.mp exists_
    have found := (SyncDir.mem_localFiles?_iff present).mpr
      ⟨isValidPath_of_remoteMap there, readable p f b th present recorded there same⟩
    exact Map.mem_iff_ne_none.mp found absent

theorem reconcile_spares_local_iff (s : Sides) (faults : Faults) (root : Bytes) {user : Bytes}
    (valid : isValidUsername user = true) (serverFaults : Faults) (cache : HashCache) :
    (∀ listed turn p, (p, .deleteOwn) ∈ (reconcile faults listed
          (s.server.list serverFaults (filePath root user) cache).1 turn s).1.log →
        s.server.tree.file? p = none) ↔
      ∀ p g b h, s.server.tree.file? p = some g → s.dir.base[p]? = some b →
        (s.dir.localFiles? faults)[p]? = some h → sameContent b h = true →
          serverFaults.reaches p = true ∧
            ((cache.lookUp (filePath root user p) p g).isSome = true ∨
              serverFaults.hashes p = true) := by
  have listed_iff : ∀ {p : Bytes} {g : File}, s.server.tree.file? p = some g →
      isValidPath p = true →
      ((remoteMap (s.server.list serverFaults (filePath root user) cache).1)[p]? ≠ none ↔
        serverFaults.reaches p = true ∧
          ((cache.lookUp (filePath root user p) p g).isSome = true ∨
            serverFaults.hashes p = true)) := by
    intro p g stored pathValid
    rw [← Map.mem_iff_ne_none, mem_remoteMap_iff, and_iff_right pathValid, UserDir.list,
      SisOp.listed_iff
      (fun p q => (filePath_inj valid valid).trans (and_iff_right rfl)) stored,
      and_iff_right pathValid]
  constructor
  · intro kept p g b h stored recorded here same
    obtain ⟨f, -, pathValid, -, -⟩ := SyncDir.getElem?_localFiles?_iff.mp here
    refine (listed_iff stored pathValid).mp fun absent => ?_
    obtain ⟨answer, turn, deleted⟩ := reconcile_deletes_iff.mpr
      (deed_eq_deleteOwn_iff.mpr ⟨absent, b, h, recorded, here, same⟩)
    exact nomatch stored.symm.trans (kept answer turn p deleted)
  · intro readable listed turn p deleted
    obtain ⟨absent, b, h, recorded, here, same⟩ :=
      deed_eq_deleteOwn_iff.mp (reconcile_deletes_iff.mp ⟨listed, turn, deleted⟩)
    obtain ⟨f, -, pathValid, -, -⟩ := SyncDir.getElem?_localFiles?_iff.mp here
    by_contra exists_
    obtain ⟨g, stored⟩ := Option.ne_none_iff_exists'.mp exists_
    exact (listed_iff stored pathValid).mpr (readable p g b h stored recorded here same) absent

theorem attachRequests_spares_iff (root : Bytes) (cache : HashCache) (storeFaults : StoreFaults)
    (primary : Replica) (accounts : List (Bytes × Bytes)) (files : List (FileKey × FileInfo)) :
    (∀ succeeds (key : FileKey), .delete key ∈ sentOnLink succeeds (attachRequests primary
          (localMap primary.storage root storeFaults cache) accounts files) →
        primary.storage.file? key.user key.name = none) ↔
      ∀ (key : FileKey) info f, (key, info) ∈ files →
        primary.storage.file? key.user key.name = some f → Lists root storeFaults cache key f := by
  constructor
  · intro kept key info f entry stored
    refine (mem_localMap_iff stored).mp ?_
    by_contra unlisted
    obtain ⟨succeeds, asked⟩ := attach_deletes_iff.mpr
      ⟨⟨info, entry⟩, unlisted⟩
    exact nomatch stored.symm.trans (kept succeeds key asked)
  · intro readable succeeds key asked
    obtain ⟨⟨info, entry⟩, unlisted⟩ := attach_deletes_iff.mp ⟨succeeds, asked⟩
    by_contra exists_
    obtain ⟨f, stored⟩ := Option.ne_none_iff_exists'.mp exists_
    exact unlisted ((mem_localMap_iff stored).mpr (readable key info f entry stored))

/-- **Which unread files are taken for deleted ones.** `sync_local_change` and
`rescan_local` send a Delete for a file that is there unless every recorded file
can be looked at and has a saved hash or can be hashed. `reconcile` does so unless
every file the server still has in the recorded version can be listed and hashed;
with the roles exchanged, the same is what keeps it from deleting the client's own
copies of stored files. `attach_replica` deletes no stored file from a backup
exactly when it can list every stored file in the backup's manifest. -/
theorem unread_not_deleted_iff (s : Sides) (name : Bytes) (t : Turn) (faults : Faults)
    (turn : Bytes → Turn) (remote : List FileInfo) (root : Bytes) {user : Bytes}
    (valid : isValidUsername user = true) (serverFaults : Faults) (cache : HashCache)
    (storeFaults : StoreFaults) (primary : Replica) (accounts : List (Bytes × Bytes))
    (files : List (FileKey × FileInfo)) :
    ((∀ p, (p, .askDelete) ∈ (syncLocalChange t ⟨s, []⟩ name).1.log → s.dir.tree.file? p = none) ↔
      ∀ f, s.dir.tree.file? name = some f → s.dir.base[name]? ≠ none →
        t.stat.stats name = true ∧ (s.dir.saved name f = true ∨ t.hash.hashes name = true)) ∧
    ((∀ p, (p, .askDelete) ∈ (rescanLocal faults turn s).log → s.dir.tree.file? p = none) ↔
      ∀ p f, s.dir.tree.file? p = some f → s.dir.base[p]? ≠ none →
        (turn p).stat.stats p = true ∧
          (s.dir.saved p f = true ∨ (turn p).hash.hashes p = true)) ∧
    ((∀ listed turn p, (p, .askDelete) ∈ (reconcile faults listed remote turn s).1.log →
        s.dir.tree.file? p = none) ↔
      ∀ p f b th, s.dir.tree.file? p = some f → s.dir.base[p]? = some b →
        (remoteMap remote)[p]? = some th → sameContent b th = true →
          faults.reaches p = true ∧ (s.dir.saved p f = true ∨ faults.hashes p = true)) ∧
    ((∀ listed turn p, (p, .deleteOwn) ∈ (reconcile faults listed
          (s.server.list serverFaults (filePath root user) cache).1 turn s).1.log →
        s.server.tree.file? p = none) ↔
      ∀ p g b h, s.server.tree.file? p = some g → s.dir.base[p]? = some b →
        (s.dir.localFiles? faults)[p]? = some h → sameContent b h = true →
          serverFaults.reaches p = true ∧
            ((cache.lookUp (filePath root user p) p g).isSome = true ∨
              serverFaults.hashes p = true)) ∧
    ((∀ succeeds (key : FileKey), .delete key ∈ sentOnLink succeeds (attachRequests primary
          (localMap primary.storage root storeFaults cache) accounts files) →
        primary.storage.file? key.user key.name = none) ↔
      ∀ (key : FileKey) info f, (key, info) ∈ files →
        primary.storage.file? key.user key.name = some f → Lists root storeFaults cache key f) := by
  exact ⟨syncLocalChange_spares_iff s name t, rescanLocal_spares_iff s faults turn,
    reconcile_spares_remote_iff s faults remote,
    reconcile_spares_local_iff s faults root valid serverFaults cache,
    attachRequests_spares_iff root cache storeFaults primary accounts files⟩

section Examples

/-- The file `x` in sync. -/
def inSync : Sides :=
  facing hereOne hereOne
    ((∅ : ExtTreeMap Bytes FileInfo).insert (bytes "x") (hereOne.info (bytes "x")))

/-- sync_dir cannot be opened, for want of file descriptors or of permission, and
the server is asked to delete the file it still has. -/
theorem deleted_when_unread :
    ¬∀ (s : Sides) (faults : Faults) (listed : Exchange) (remote : List FileInfo)
      (turn : Bytes → Turn) (p : Bytes),
      (p, .askDelete) ∈ (reconcile faults listed remote turn s).1.log →
        s.dir.tree.file? p = none := by
  intro claim
  have asked : (bytes "x", .askDelete) ∈ (reconcile { Faults.none with opendir := fun _ => true }
      .answered [hereOne.info (bytes "x")] (fun _ => ⟨⟨.answered, noon⟩, .none, .none, .none⟩)
      inSync).1.log := by decide +kernel
  have present : inSync.dir.tree.file? (bytes "x") = some hereOne := by decide +kernel
  exact nomatch present.symm.trans (claim _ _ _ _ _ _ asked)

/-- A server that can list the file makes no client delete it. -/
theorem kept_when_listed :
    inSync.server.tree.file? (bytes "x") = some hereOne ∧
      (bytes "x", .deleteOwn) ∉ (reconcile .none .answered (inSync.server.list .none
        (filePath (bytes "/srv") (bytes "ana")) ∅).1
        (fun _ => ⟨⟨.answered, noon⟩, .none, .none, .none⟩) inSync).1.log := by
  have stored : inSync.server.tree.file? (bytes "x") = some hereOne := by decide +kernel
  refine ⟨stored, fun deleted => ?_⟩
  have valid : isValidUsername (bytes "ana") = true := by decide
  have kept := (unread_not_deleted_iff inSync (bytes "x") ⟨⟨.answered, noon⟩, .none, .none, .none⟩
    .none (fun _ => ⟨⟨.answered, noon⟩, .none, .none, .none⟩) [] (bytes "/srv") valid .none ∅
    ⟨false, fun _ => false, fun _ => .none⟩ ⟨∅, ∅⟩ [] []).2.2.2.1.mpr
      fun p g b h _ _ _ _ => ⟨by simp [Faults.reaches, Faults.none], .inr rfl⟩
  cases stored.symm.trans (kept _ _ _ deleted)

end Examples

end Unreadable

end SisOp
