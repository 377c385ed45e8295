import SisOp.Client.Convergence
import SisOp.Client.Echo

/-!
# Restarts of the client

`install`, the PushDelete branch of `handle_push`, `sync_local_change` and
`reconcile`, cut where the process can be killed: files, memory and the saved
state file change one after the other. The user and the other clients act
between any two steps.

Main result: `crash_consistent`, the `reconcile` after a restart uploads no file
that was deleted on the server and not edited here, and deletes none that the
user did not delete, unless the server has undone what the state file misses.
-/

namespace SisOp.Crash

open Lib Std Convergence

/-- What `reconcile` has left: the two listings and the names. -/
structure Loop where
  here : Bytes → Option FileInfo
  there : Bytes → Option FileInfo
  names : List Bytes

/-- Where the client is under `sync_mutex_`: in `install` before the received file
moves in; before a save; between the save and the unlink of a PushDelete; or
in the loop of `reconcile`. -/
inductive Phase where
  | idle
  | moved (name : Bytes) (temp : File) (next : Option Loop)
  | unsaved (next : Option Loop)
  | forgotten (name : Bytes)
  | listed (remote : ExtTreeMap Bytes FileInfo)
  | reconciling (loop : Loop)

namespace Phase

def loop? : Phase → Option Loop
  | moved _ _ next | unsaved next => next
  | reconciling loop => some loop
  | _ => none

/-- The path whose file is not what the records say. -/
def adrift (p : Bytes) : Phase → Bool
  | moved name .. | forgotten name => decide (name = p)
  | _ => false

end Phase

/-- `saved` is the state file. The last three fields only record: `edited` that
the file at a path was changed since it was last in sync, `removed` that the user
deleted the one that was there, `lost` that its record was lost in a kill. -/
structure State where
  dir : SyncDir
  saved : ExtTreeMap Bytes FileInfo
  server : UserDir
  phase : Phase
  edited : Bytes → Bool
  removed : Bytes → Bool
  lost : Bytes → Bool

inductive Label where
  | user (tree : FileTree Bytes File)
  | others (server : UserDir)
  | pushFile (name : Bytes) (temp : File) (stamp : Stamp)
  | pushDelete (name : Bytes) (saved : Bool)
  | change (name : Bytes) (e : Exchange)
  | place
  | unlink
  | save (ok : Bool)
  | list
  | scan
  | body (o : Outcome)
  | kill

/-- The user's files, before the client has ever run here. -/
def init (tree : FileTree Bytes File) (server : UserDir) : State :=
  ⟨⟨tree, ∅⟩, ∅, server, .idle, fun _ => true, fun _ => false, fun _ => false⟩

/-- The entry is that of the file. -/
def covers (d : SyncDir) (p : Bytes) : Bool :=
  (d.tree.file? p).any fun f => d.base[p]?.any fun b => sameContent b (f.info p)

/-- The entry is that of the file, or both are missing. -/
def agrees (d : SyncDir) (p : Bytes) : Bool :=
  covers d p || ((d.tree.file? p).isNone && d.base[p]?.isNone)

namespace State

def file? (s : State) (p : Bytes) : Option File := s.dir.tree.file? p

/-- The user changes files. -/
def byUser (s : State) (tree : FileTree Bytes File) : State :=
  { s with
    dir.tree := tree
    edited := fun p => s.edited p || decide (tree.file? p ≠ s.file? p)
    removed := fun p => s.removed p || decide (tree.file? p = none ∧ s.file? p ≠ none) }

/-- The client has done something at one path. A conflicted copy it makes counts
as the user's file. -/
def act (s : State) (sides : Sides) (name : Bytes) (phase : Phase) : State :=
  { s with
    dir := sides.dir
    server := sides.server
    phase
    edited := fun p => (s.edited p || decide (sides.dir.tree.file? p ≠ s.file? p)) &&
      !(decide (p = name) && covers sides.dir p)
    removed := fun p => s.removed p &&
      !decide (sides.dir.tree.file? p = none ∧ s.file? p ≠ none)
    lost := fun p => s.lost p && !(decide (p = name) && agrees sides.dir p) }

def sides (s : State) : Sides := ⟨s.dir, s.server⟩

/-- The file at the path and its saved entry are of different moments. -/
def unsaved (s : State) (p : Bytes) : Bool :=
  decide (s.dir.base[p]? ≠ s.saved[p]?) || s.lost p || s.phase.adrift p

/-- The client starts anew with the state file. -/
def restart (s : State) : State :=
  { s with dir.base := s.saved, phase := .idle, lost := s.unsaved }

end State

/-- Every path of either list or of the saved state, in order. -/
def loopOf (d : SyncDir) (remote : ExtTreeMap Bytes FileInfo) : Loop where
  here := fun p => d.localFiles[p]?
  there := fun p => remote[p]?
  names := (Map.ofPairs (((d.localFiles.keys ++ remote.keys) ++ d.base.keys).map
    fun name => (name, ()))).keys

/-- The loop body downloads the server's version. -/
def pulls (base here there : Option FileInfo) : Bool :=
  match there with
  | some t => !(here.any fun h => sameContent h t) && !shouldPush base here there
  | none => false

def step (s : State) : Label → Option State
  | .user tree => some (s.byUser tree)
  | .others server => some { s with server }
  | .pushFile name temp stamp =>
    match s.phase with
    | .idle =>
      if isValidPath name then
        some (s.act ⟨s.dir.makeWay name temp stamp, s.server⟩ name (.moved name temp none))
      else some s
    | _ => none
  | .pushDelete name ok =>
    match s.phase with
    | .idle =>
      if isValidPath name then
        let s := s.act ⟨{ s.dir with base := s.dir.base.erase name }, s.server⟩ name
          (.forgotten name)
        some { s with saved := if ok then s.dir.base else s.saved }
      else some s
    | _ => none
  | .change name e =>
    match s.phase with
    | .idle =>
      if isValidPath name then
        let (sides, result) := syncLocalChange s.sides name e
        let saves : Bool := match s.dir.request? name with
          | some (.upload _) => decide (result = .ok)
          | some (.delete _) => decide (result ≠ .failed)
          | none => false
        some (s.act sides name (if saves then .unsaved none else .idle))
      else none
    | _ => none
  | .place =>
    match s.phase with
    | .moved name temp next =>
      some (s.act ⟨s.dir.moveIn name temp, s.server⟩ name (.unsaved next))
    | _ => none
  | .unlink =>
    match s.phase with
    | .forgotten name =>
      some (s.act ⟨{ s.dir with tree := (s.dir.tree.delete name).1 }, s.server⟩ name .idle)
    | _ => none
  | .save ok =>
    match s.phase with
    | .unsaved next =>
      some { s with saved := if ok then s.dir.base else s.saved
                    phase := (next.map .reconciling).getD .idle }
    | _ => none
  | .list =>
    match s.phase with
    | .idle => some { s with phase := .listed (remoteFiles s.server) }
    | _ => none
  | .scan =>
    match s.phase with
    | .listed remote => some { s with phase := .reconciling (loopOf s.dir remote) }
    | _ => none
  | .body o =>
    match s.phase with
    | .reconciling ⟨here, there, name :: names⟩ =>
      let rest : Loop := ⟨here, there, names⟩
      if pulls s.dir.base[name]? (here name) (there name) then
        match download s.server name o.exchange with
        | (some temp, _) =>
          some (s.act ⟨s.dir.makeWay name temp o.stamp, s.server⟩ name
            (.moved name temp (some rest)))
        | (none, result) =>
          some { s with phase := if result = .failed then .unsaved none else .reconciling rest }
      else
        let (sides, result) := reconcileName (here name) (there name) o s.sides name
        some (s.act sides name (if result = .failed then .unsaved none else .reconciling rest))
    | .reconciling ⟨_, _, []⟩ => some { s with phase := .unsaved none }
    | _ => none
  | .kill => some s.restart

/-! ## Restarts -/

/-- What `reconcile` must not do to the server: bring back a file that was
deleted there and not edited here, or delete one that the user did not. -/
structure Consistent (s : State) : Prop where
  upload : ∀ listed outcome p, s.server.tree.file? p = none →
    (SisOp.reconcile s.sides listed outcome).1.server.tree.file? p ≠ none → s.edited p = true
  delete : ∀ listed outcome p, s.server.tree.file? p ≠ none →
    (SisOp.reconcile s.sides listed outcome).1.server.tree.file? p = none → s.removed p = true

/-- What a kill must find where the state file misses something: an unedited file
is in its saved version or still on the server, and none that is missing here,
but not for the user, is back there in its saved version. -/
def Recoverable (s : State) : Prop :=
  ∀ p, s.unsaved p = true →
    (∀ f, s.file? p = some f → s.edited p = false → s.server.tree.file? p = none →
      (s.saved[p]?.any fun b => sameContent b (f.info p)) = true) ∧
    (s.file? p = none → s.removed p = false → ∀ g, s.server.tree.file? p = some g →
      (s.saved[p]?.any fun b => sameContent b (g.info p)) = false)

/-! ## What a whole reconcile does to the server -/

section Reconcile

variable {s : Sides} {listed : Exchange} {outcome : Bytes → Outcome} {p : Bytes}

theorem absent_removeRemote {server : UserDir} {e : Exchange}
    (absent : server.tree.file? p = none) :
    (removeRemote server p e).1.tree.file? p = none := by
  have gone : (server.delete p).tree.file? p = none := (FileTree.file?_delete ..).trans (if_pos rfl)
  unfold removeRemote
  cases e with
  | answered => exact gone
  | refused => exact absent
  | lost applied =>
    cases applied with
    | true => exact gone
    | false => exact absent

theorem present_upload {dir : SyncDir} {server : UserDir} {e : Exchange}
    (present : server.tree.file? p ≠ none) : (upload dir server p e).1.tree.file? p ≠ none := by
  have stored : ∀ f, (server.put p f).tree.file? p ≠ none := by
    intro f
    change (server.tree.put p f).1.file? p ≠ none
    cases ok : (server.tree.put p f).2 with
    | true =>
      rw [FileTree.file?_put ok, if_pos rfl]
      nofun
    | false =>
      rw [FileTree.put_of_fail ok]
      exact present
  unfold upload
  split
  · exact stored _
  · exact stored _
  · exact present
  · exact present

/-- What holds of one path at the start of its loop body, and afterwards. -/
theorem reconcile_at {I J : Sides → Prop} (init : I s) (done : ∀ s', I s' → J s')
    (before : ∀ name s' t, name ≠ p → I s' → Did (s.dir.localFiles[name]?)
      ((remoteFiles s.server)[name]?) (outcome name) s' name t → I t)
    (here : ∀ s' t, I s' →
      Did (s.dir.localFiles[p]?) ((remoteFiles s.server)[p]?) (outcome p) s' p t →
      J t)
    (after : ∀ name s' t, name ≠ p → J s' → Did (s.dir.localFiles[name]?)
      ((remoteFiles s.server)[name]?) (outcome name) s' name t → J t) :
    J (SisOp.reconcile s listed outcome).1 := by
  cases listed with
  | lost applied => exact done s init
  | refused => exact done s init
  | answered =>
    obtain ⟨rest, -, reached⟩ := reconcileLoop_invariant (s.dir.localFiles[·]?)
      ((remoteFiles s.server)[·]?) outcome
      (I := fun rest t => rest.Nodup ∧ (I t ∨ p ∉ rest ∧ J t)) (fun name rest s' t now did => by
        obtain ⟨nodup, state⟩ := now
        obtain ⟨apart, nodup⟩ := List.nodup_cons.mp nodup
        refine ⟨nodup, ?_⟩
        by_cases same : name = p
        · subst same
          rcases state with early | ⟨absent, -⟩
          · exact .inr ⟨apart, here s' t early did⟩
          · exact absurd List.mem_cons_self absent
        · refine state.imp (fun early => before name s' t same early did) ?_
          rintro ⟨absent, late⟩
          exact ⟨fun mem => absent (List.mem_cons_of_mem _ mem), after name s' t same late did⟩)
      (reconcileNames s) s ⟨Deletion.nodup_reconcileNames s, .inl init⟩
    exact reached.elim (done _) And.right

/-- A file that appears on the server was there and differed from its entry. -/
theorem reconcile_uploads (absent : s.server.tree.file? p = none)
    (appears : (SisOp.reconcile s listed outcome).1.server.tree.file? p ≠ none) :
    ∃ f, s.dir.tree.file? p = some f ∧
      (s.dir.base[p]?.any fun b => sameContent b (s.dir.fillHash p f)) = false := by
  by_contra unchanged
  refine appears ?_
  refine reconcile_at (p := p)
    (I := fun t => t.server.tree.file? p = none ∧ t.dir.base[p]? = s.dir.base[p]?)
    (J := fun t => t.server.tree.file? p = none) ⟨absent, rfl⟩ (fun _ held => held.1) ?_ ?_ ?_
  · intro name s' t other held did
    exact ⟨(did.server_of_ne (Ne.symm other)).trans held.1,
      (did.base_of_ne (Ne.symm other)).trans held.2⟩
  · intro s' t held did
    cases did with
    | nothing | installed | deleted => exact held.1
    | uploaded base frame h local_ differs decision =>
      rw [local_] at decision
      rw [SyncDir.localFiles, getElem?_listing_eq] at local_
      split at local_
      · obtain ⟨f, onDisk, rfl⟩ := Option.map_eq_some_iff.mp local_
        have changed := changed_of_push decision
        rw [held.2] at changed
        exact absurd ⟨f, onDisk, changed⟩ unchanged
      · cases local_
    | removed => exact absent_removeRemote held.1
  · intro name s' t other held did
    exact (did.server_of_ne (Ne.symm other)).trans held

/-- A file that disappears from the server was not here, and was the saved
version. -/
theorem reconcile_deletes {g : File} (present : s.server.tree.file? p = some g)
    (disappears : (SisOp.reconcile s listed outcome).1.server.tree.file? p = none) :
    s.dir.tree.file? p = none ∧
      (s.dir.base[p]?.any fun b => sameContent b (g.info p)) = true := by
  by_contra kept
  refine absurd disappears ?_
  refine reconcile_at (p := p)
    (I := fun t => t.server.tree.file? p = some g ∧ t.dir.base[p]? = s.dir.base[p]?)
    (J := fun t => t.server.tree.file? p ≠ none) ⟨present, rfl⟩
    (fun _ held => by rw [held.1]; nofun) ?_ ?_ ?_
  · intro name s' t other held did
    exact ⟨(did.server_of_ne (Ne.symm other)).trans held.1,
      (did.base_of_ne (Ne.symm other)).trans held.2⟩
  · intro s' t held did
    cases did with
    | nothing | installed | deleted =>
      rw [held.1]
      nofun
    | uploaded => exact present_upload (by rw [held.1]; nofun)
    | removed base frame local_ decision =>
      rw [local_, remoteFiles, getElem?_listing_eq] at decision
      rw [SyncDir.localFiles, getElem?_listing_eq] at local_
      split at decision
      · rename_i valid
        rw [if_pos valid] at local_
        rw [present, held.2] at decision
        exact absurd ⟨Option.map_eq_none_iff.mp local_, base_of_shouldPush decision⟩ kept
      · cases base : s'.dir.base[p]? <;> simp [shouldPush, base] at decision
  · intro name s' t other held did
    rw [did.server_of_ne (Ne.symm other)]
    exact held

end Reconcile

/-! ## Runs that are not cut -/

section Uncut

variable {s : State}

/-- The steps of a download are the loop body. -/
theorem reconcileName_of_pulls {sides : Sides} {here there : Option FileInfo} {o : Outcome}
    {name : Bytes} (pulled : pulls sides.dir.base[name]? here there = true) :
    reconcileName here there o sides name = reconcileName.pull o name sides := by
  unfold pulls at pulled
  cases there with
  | none => cases pulled
  | some t =>
    rw [Bool.and_eq_true, Bool.not_eq_true', Bool.not_eq_true'] at pulled
    obtain ⟨differs, decision⟩ := pulled
    unfold reconcileName
    cases here with
    | none => simp only [decision, Bool.false_eq_true, if_false]
    | some h =>
      rw [Option.any_some] at differs
      simp only [differs, decision, Bool.false_eq_true, if_false]

/-- The loop of `reconcile`, as the steps make it. -/
theorem run_loop (here there : Bytes → Option FileInfo) (outcome : Bytes → Outcome)
    (names : List Bytes) (now : s.phase = .reconciling ⟨here, there, names⟩) :
    ∃ labels t, run step s labels = some t ∧ t.phase = .unsaved none ∧
      t.sides = (reconcileLoop here there outcome names s.sides).1 := by
  induction names generalizing s with
  | nil =>
    refine ⟨[.body ⟨.answered, (outcome []).stamp⟩], { s with phase := .unsaved none },
      ?_, rfl, rfl⟩
    rw [run, step, now]
    rfl
  | cons name names ih =>
    have more : ∀ (first : List Label) {t : State}, run step s first = some t →
        t.phase = .reconciling ⟨here, there, names⟩ →
        t.sides = (reconcileName (here name) (there name) (outcome name) s.sides name).1 →
        (reconcileName (here name) (there name) (outcome name) s.sides name).2 ≠ .failed →
        ∃ labels t, run step s labels = some t ∧ t.phase = .unsaved none ∧
          t.sides = (reconcileLoop here there outcome (name :: names) s.sides).1 := by
      intro first t ran next same went
      obtain ⟨labels, u, onward, last, sides⟩ := ih next
      refine ⟨first ++ labels, u, ?_, last, ?_⟩
      · rw [run_append, ran]
        exact onward
      · rw [sides, reconcileLoop, if_neg went, same]
    have stop : ∀ {t : State}, step s (.body (outcome name)) = some t → t.phase = .unsaved none →
        t.sides = (reconcileName (here name) (there name) (outcome name) s.sides name).1 →
        (reconcileName (here name) (there name) (outcome name) s.sides name).2 = .failed →
        ∃ labels t, run step s labels = some t ∧ t.phase = .unsaved none ∧
          t.sides = (reconcileLoop here there outcome (name :: names) s.sides).1 := by
      intro t stepped last same failed
      refine ⟨[.body (outcome name)], t, ?_, last, ?_⟩
      · rw [run, stepped]
        rfl
      · rw [reconcileLoop, if_pos failed, same]
    by_cases pulled : pulls s.dir.base[name]? (here name) (there name) = true
    · have body : reconcileName (here name) (there name) (outcome name) s.sides name =
          reconcileName.pull (outcome name) name s.sides := reconcileName_of_pulls pulled
      rw [body] at more stop
      unfold reconcileName.pull at more stop
      cases got : download s.sides.server name (outcome name).exchange with
      | mk temp result =>
      rw [got] at more stop
      have here_ : download s.server name (outcome name).exchange = _ := got
      cases temp with
      | some temp =>
        have ok : result ≠ .failed := by
          rintro rfl
          unfold download at got
          repeat' split at got
          all_goals cases got
        let moved := s.act ⟨s.dir.makeWay name temp (outcome name).stamp, s.server⟩ name
          (.moved name temp (some ⟨here, there, names⟩))
        let placed := moved.act ⟨moved.dir.moveIn name temp, moved.server⟩ name
          (.unsaved (some ⟨here, there, names⟩))
        have stepped : step s (.body (outcome name)) = some moved := by
          rw [step, now]
          dsimp only
          rw [if_pos pulled, here_]
        refine more [.body (outcome name), .place, .save true]
          (t := { placed with saved := placed.dir.base, phase := .reconciling ⟨here,
            there, names⟩ })
          ?_ rfl rfl ok
        rw [run, stepped]
        rfl
      | none =>
        have stepped : step s (.body (outcome name)) = some { s with
            phase := if result = .failed then .unsaved none
              else .reconciling ⟨here, there, names⟩ } := by
          rw [step, now]
          dsimp only
          rw [if_pos pulled, here_]
        by_cases failed : result = .failed
        · rw [if_pos failed] at stepped
          exact stop stepped rfl rfl failed
        · rw [if_neg failed] at stepped
          refine more [.body (outcome name)]
            (t := { s with phase := .reconciling ⟨here, there, names⟩ }) ?_ rfl rfl failed
          rw [run, stepped]
          rfl
    · let body := reconcileName (here name) (there name) (outcome name) s.sides name
      have stepped : step s (.body (outcome name)) = some (s.act body.1 name
          (if body.2 = .failed then .unsaved none else .reconciling ⟨here, there, names⟩)) := by
        rw [step, now]
        dsimp only
        rw [if_neg pulled]
      by_cases failed : body.2 = .failed
      · rw [if_pos failed] at stepped
        exact stop stepped rfl rfl failed
      · rw [if_neg failed] at stepped
        refine more [.body (outcome name)]
          (t := s.act body.1 name (.reconciling ⟨here, there, names⟩)) ?_ rfl rfl failed
        rw [run, stepped]
        rfl

/-- A whole `reconcile`. -/
theorem run_reconcile (idle : s.phase = .idle) (outcome : Bytes → Outcome) :
    ∃ labels t, run step s labels = some t ∧ t.phase = .idle ∧
      t.sides = (SisOp.reconcile s.sides .answered outcome).1 := by
  let loop := loopOf s.dir (remoteFiles s.server)
  obtain ⟨labels, t, ran, last, sides⟩ := run_loop (s := { s with phase := .reconciling loop })
    loop.here loop.there outcome loop.names rfl
  refine ⟨.list :: .scan :: (labels ++ [.save true]),
    { t with saved := t.dir.base, phase := .idle }, ?_, rfl, sides⟩
  rw [run, step, idle]
  dsimp only [Option.bind_some]
  rw [run, step]
  dsimp only [Option.bind_some]
  rw [run_append, show run step { s with phase := .reconciling loop } labels = some t from ran]
  dsimp only [Option.bind_some]
  rw [run, step, last]
  rfl

/-- A whole `handle_push`. -/
theorem run_push (idle : s.phase = .idle) (stamp : Stamp) (push : Sessions.Push) :
    ∃ labels t, run step s labels = some t ∧ t.phase = .idle ∧
      t.sides = ⟨Sessions.handlePush s.dir stamp push, s.server⟩ := by
  cases push with
  | file name temp =>
    by_cases valid : isValidPath name = true
    · let moved := s.act ⟨s.dir.makeWay name temp stamp, s.server⟩ name (.moved name temp none)
      let placed := moved.act ⟨moved.dir.moveIn name temp, moved.server⟩ name (.unsaved none)
      refine ⟨[.pushFile name temp stamp, .place, .save true],
        { placed with saved := placed.dir.base, phase := .idle }, ?_, rfl, ?_⟩
      · rw [run, step, idle]
        dsimp only
        rw [if_pos valid]
        rfl
      · rw [Sessions.handlePush, if_pos valid]
        rfl
    · refine ⟨[], s, rfl, idle, ?_⟩
      rw [Sessions.handlePush, if_neg valid]
      rfl
  | delete name =>
    by_cases valid : isValidPath name = true
    · let known := s.act ⟨{ s.dir with base := s.dir.base.erase name }, s.server⟩ name
        (.forgotten name)
      refine ⟨[.pushDelete name true, .unlink],
        { known with saved := known.dir.base }.act
          ⟨{ known.dir with tree := (known.dir.tree.delete name).1 }, s.server⟩ name .idle,
        ?_, rfl, ?_⟩
      · rw [run, step, idle]
        dsimp only
        rw [if_pos valid]
        rfl
      · rw [Sessions.handlePush, if_pos valid]
        rfl
    · refine ⟨[], s, rfl, idle, ?_⟩
      rw [Sessions.handlePush, if_neg valid]
      rfl

end Uncut

/-! ## What holds at every point -/

/-- The listing of this directory still knows every unedited file, and no file it
knows is gone except by the user. -/
structure Loop.Current (loop : Loop) (s : State) : Prop where
  nodup : loop.names.Nodup
  valid : ∀ p, (loop.here p).isSome ∨ (loop.there p).isSome → isValidPath p = true
  listed : ∀ p ∈ loop.names, ∀ f, s.file? p = some f → s.edited p = false →
    loop.here p = some (s.dir.fillHash p f)
  gone : ∀ p ∈ loop.names, (loop.here p).isSome → s.file? p = none → s.removed p = true

/-- An unedited file is the recorded one, and a missing one is not recorded unless
the user removed it, up to lost records and the path `install` or PushDelete is
at. -/
structure Inv (s : State) : Prop where
  recorded : ∀ p f, s.file? p = some f → s.edited p = false →
    covers s.dir p = true ∨ s.lost p = true ∨ s.phase.adrift p = true
  unrecorded : ∀ p, s.file? p = none → s.removed p = false →
    s.dir.base[p]? = none ∨ s.lost p = true ∨ s.phase.adrift p = true
  valid : ∀ p f, s.file? p = some f → s.edited p = false → isValidPath p = true
  loop : ∀ loop, s.phase.loop? = some loop → loop.Current s
  forgotten : ∀ name, s.phase = .forgotten name → s.dir.base[name]? = none
  moved : ∀ name temp next, s.phase = .moved name temp next → isValidPath name = true ∧
    ∀ loop, next = some loop → name ∉ loop.names
  remote : ∀ remote, s.phase = .listed remote → ∀ p, remote[p]?.isSome → isValidPath p = true

variable {s s' : State} {p q name : Bytes} {f : File}

/-- Nothing is adrift in these phases. -/
theorem Phase.calm {phase : Phase} (now : s.phase = phase) (calm : ∀ q, phase.adrift q = false)
    (q : Bytes) : s.phase.adrift q = false := by
  rw [now]
  exact calm q

/-- A phase that speaks of at most a loop. -/
inductive Phase.Plain : Phase → Prop
  | idle : Plain .idle
  | unsaved (next : Option Loop) : Plain (.unsaved next)
  | reconciling (loop : Loop) : Plain (.reconciling loop)

theorem Phase.Plain.not_forgotten {phase : Phase} (plain : phase.Plain) (n : Bytes) :
    phase ≠ .forgotten n := by
  rintro rfl
  cases plain

theorem Phase.Plain.not_moved {phase : Phase} (plain : phase.Plain) (n : Bytes) (temp : File)
    (next : Option Loop) : phase ≠ .moved n temp next := by
  rintro rfl
  cases plain

theorem Phase.Plain.not_listed {phase : Phase} (plain : phase.Plain)
    (remote : ExtTreeMap Bytes FileInfo) : phase ≠ .listed remote := by
  rintro rfl
  cases plain

theorem covers_iff {d : SyncDir} : covers d p = true ↔
    ∃ f, d.tree.file? p = some f ∧ ∃ b, d.base[p]? = some b ∧ sameContent b (f.info p) = true := by
  rw [covers, Option.any_eq_true]
  exact exists_congr fun f => and_congr_right fun _ => Option.any_eq_true ..

/-- A covered file compares equal to its entry. -/
theorem unchanged_of_covers {d : SyncDir} (covered : covers d p = true)
    (present : d.tree.file? p = some f) :
    (d.base[p]?.any fun b => sameContent b (d.fillHash p f)) = true ∧
      sameContent (d.fillHash p f) (f.info p) = true := by
  obtain ⟨f', present', b, entry, same⟩ := covers_iff.mp covered
  cases present.symm.trans present'
  have filled : sameContent b (d.fillHash p f) = true := by
    unfold SyncDir.fillHash
    rw [entry]
    dsimp only
    split
    · rename_i both
      exact sameContent_iff.mpr ⟨rfl, both.1⟩
    · exact same
  refine ⟨?_, sameContent_trans (sameContent_comm.trans filled) same⟩
  rw [entry]
  exact filled

/-! ## One action of the client -/

section Act

variable {sides : Sides} {phase : Phase} {loop : Loop}

theorem edited_act : (s.act sides name phase).edited q = false ↔
    (s.edited q = false ∧ sides.dir.tree.file? q = s.file? q) ∨
      q = name ∧ covers sides.dir q = true := by
  change ((s.edited q || decide (sides.dir.tree.file? q ≠ s.file? q)) &&
    !(decide (q = name) && covers sides.dir q)) = false ↔ _
  rw [Bool.and_eq_false_iff, Bool.or_eq_false_iff, decide_eq_false_iff_not, not_not,
    Bool.not_eq_false', Bool.and_eq_true, decide_eq_true_eq]

theorem removed_act : (s.act sides name phase).removed q = true ↔
    s.removed q = true ∧ ¬(sides.dir.tree.file? q = none ∧ s.file? q ≠ none) := by
  change (s.removed q && !decide (sides.dir.tree.file? q = none ∧ s.file? q ≠ none)) = true ↔ _
  rw [Bool.and_eq_true, Bool.not_eq_true', decide_eq_false_iff_not]

theorem lost_act : (s.act sides name phase).lost q = true ↔
    s.lost q = true ∧ ¬(q = name ∧ agrees sides.dir q = true) := by
  change (s.lost q && !(decide (q = name) && agrees sides.dir q)) = true ↔ _
  rw [Bool.and_eq_true, Bool.not_eq_true', ← Bool.not_eq_true, Bool.and_eq_true, decide_eq_true_eq]

/-- The other entries stay, and so do the other files, up to a conflicted copy. -/
def Framed (s : State) (sides : Sides) (name : Bytes) : Prop :=
  ∀ q, q ≠ name → sides.dir.base[q]? = s.dir.base[q]? ∧
    (sides.dir.tree.file? q = s.file? q ∨ s.file? q = none)

theorem Loop.Current.act (current : loop.Current s) (framed : Framed s sides name)
    (new : name ∉ loop.names) : loop.Current (s.act sides name phase) where
  nodup := current.nodup
  valid := current.valid
  listed p mem f present unedited := by
    have other : p ≠ name := fun same => new (same ▸ mem)
    rcases edited_act.mp unedited with ⟨before, same⟩ | ⟨here, -⟩
    · have filled : s.dir.fillHash p f = sides.dir.fillHash p f :=
        SyncDir.fillHash_congr (framed p other).1.symm f
      change loop.here p = some (sides.dir.fillHash p f)
      rw [← filled]
      exact current.listed p mem f (same.symm.trans present) before
    · exact absurd here other
  gone p mem known absent := by
    have other : p ≠ name := fun same => new (same ▸ mem)
    have before : s.file? p = none :=
      (framed p other).2.elim (fun same => same.symm.trans absent) id
    exact removed_act.mpr ⟨current.gone p mem known before, fun both => both.2 before⟩

theorem Loop.Current.tail {here there : Bytes → Option FileInfo} {names : List Bytes}
    (current : Loop.Current ⟨here, there, name :: names⟩ s) :
    Loop.Current ⟨here, there, names⟩ s where
  nodup := (List.nodup_cons.mp current.nodup).2
  valid := current.valid
  listed p mem := current.listed p (List.mem_cons_of_mem _ mem)
  gone p mem := current.gone p (List.mem_cons_of_mem _ mem)

/-- What an action at one path has to show. -/
theorem Inv.act (inv : Inv s) (framed : Framed s sides name)
    (calm : ∀ q, q ≠ name → s.phase.adrift q = false)
    (keeps : ∀ f, s.file? name = some f → sides.dir.tree.file? name = some f →
      s.edited name = false → covers s.dir name = true ∨ s.phase.adrift name = true →
        covers sides.dir name = true ∨ phase.adrift name = true)
    (forgets : sides.dir.tree.file? name = none → s.file? name ≠ none ∨
      s.removed name = false ∧ (s.dir.base[name]? = none ∨ s.phase.adrift name = true) →
        sides.dir.base[name]? = none ∨ phase.adrift name = true)
    (valid : covers sides.dir name = true → isValidPath name = true)
    (loop : ∀ loop, phase.loop? = some loop → loop.Current s ∧ name ∉ loop.names)
    (forgotten : ∀ n, phase = .forgotten n → sides.dir.base[n]? = none)
    (moved : ∀ n temp next, phase = .moved n temp next → isValidPath n = true ∧
      ∀ loop, next = some loop → n ∉ loop.names)
    (remote : ∀ remote, phase ≠ .listed remote) : Inv (s.act sides name phase) where
  recorded p f present unedited := by
    change covers sides.dir p = true ∨ _ ∨ phase.adrift p = true
    rcases edited_act.mp unedited with ⟨before, same⟩ | ⟨-, covered⟩
    · have held := inv.recorded p f (same.symm.trans present) before
      by_cases here : p = name
      · subst here
        by_cases covered : covers sides.dir p = true
        · exact .inl covered
        rcases held with was | lost | adrift
        · exact (keeps f (same.symm.trans present) present before (.inl was)).imp_right .inr
        · refine .inr (.inl (lost_act.mpr ⟨lost, fun both => ?_⟩))
          have agree := both.2
          rw [agrees, Bool.or_eq_true, or_iff_right covered] at agree
          rw [show sides.dir.tree.file? p = some f from present] at agree
          cases agree
        · exact (keeps f (same.symm.trans present) present before (.inr adrift)).imp_right .inr
      · rcases held with was | lost | adrift
        · refine .inl (covers_iff.mpr ?_)
          obtain ⟨f', onDisk, b, entry, alike⟩ := covers_iff.mp was
          exact ⟨f', same.trans onDisk, b, (framed p here).1.trans entry, alike⟩
        · exact .inr (.inl (lost_act.mpr ⟨lost, fun both => here both.1⟩))
        · rw [calm p here] at adrift
          cases adrift
    · exact .inl covered
  unrecorded p absent kept := by
    change sides.dir.tree.file? p = none at absent
    change sides.dir.base[p]? = none ∨ _ ∨ phase.adrift p = true
    rw [← Bool.not_eq_true, removed_act, not_and, not_not] at kept
    by_cases here : p = name
    · subst here
      by_cases was : s.file? p = none
      · have before : s.removed p = false :=
          Bool.not_eq_true _ ▸ fun removed => (kept removed).2 was
        rcases inv.unrecorded p was before with free | lost | adrift
        · exact (forgets absent (.inr ⟨before, .inl free⟩)).imp_right .inr
        · by_cases free : sides.dir.base[p]? = none
          · exact .inl free
          · refine .inr (.inl (lost_act.mpr ⟨lost, fun both => ?_⟩))
            have agree := both.2
            rw [agrees, covers, absent, Option.any_none, Bool.false_or, Bool.and_eq_true] at agree
            exact free (Option.isNone_iff_eq_none.mp agree.2)
        · exact (forgets absent (.inr ⟨before, .inr adrift⟩)).imp_right .inr
      · exact (forgets absent (.inl was)).imp_right .inr
    · have was : s.file? p = none := (framed p here).2.elim (fun same => same.symm.trans absent) id
      have before : s.removed p = false :=
        Bool.not_eq_true _ ▸ fun removed => (kept removed).2 was
      rcases inv.unrecorded p was before with free | lost | adrift
      · exact .inl ((framed p here).1.trans free)
      · exact .inr (.inl (lost_act.mpr ⟨lost, fun both => here both.1⟩))
      · rw [calm p here] at adrift
        cases adrift
  valid p f present unedited := by
    rcases edited_act.mp unedited with ⟨before, same⟩ | ⟨rfl, covered⟩
    · exact inv.valid p f (same.symm.trans present) before
    · exact valid covered
  loop next now := (loop next now).1.act framed (loop next now).2
  forgotten := forgotten
  moved := moved
  remote next now := absurd now (remote next)

end Act

/-! ## The steps -/

theorem Inv.byUser (inv : Inv s) (tree : FileTree Bytes File) : Inv (s.byUser tree) := by
  have kept : ∀ p, (s.byUser tree).edited p = false →
      s.edited p = false ∧ tree.file? p = s.file? p := by
    intro p unedited
    rw [State.byUser, Bool.or_eq_false_iff, decide_eq_false_iff_not, not_not] at unedited
    exact unedited
  have stayed : ∀ p, tree.file? p = none → (s.byUser tree).removed p = false →
      s.removed p = false ∧ s.file? p = none := by
    intro p absent unremoved
    rw [State.byUser, Bool.or_eq_false_iff, decide_eq_false_iff_not, not_and, not_not] at unremoved
    exact ⟨unremoved.1, unremoved.2 absent⟩
  constructor
  case recorded =>
    intro p f present unedited
    obtain ⟨before, same⟩ := kept p unedited
    refine (inv.recorded p f (same.symm.trans present) before).imp_left fun covered => ?_
    obtain ⟨f', onDisk, entry⟩ := covers_iff.mp covered
    exact covers_iff.mpr ⟨f', same.trans onDisk, entry⟩
  case unrecorded =>
    intro p absent unremoved
    obtain ⟨before, was⟩ := stayed p absent unremoved
    exact inv.unrecorded p was before
  case valid =>
    intro p f present unedited
    obtain ⟨before, same⟩ := kept p unedited
    exact inv.valid p f (same.symm.trans present) before
  case loop =>
    intro loop now
    have current := inv.loop loop now
    constructor
    case nodup => exact current.nodup
    case valid => exact current.valid
    case listed =>
      intro p mem f present unedited
      obtain ⟨before, same⟩ := kept p unedited
      exact current.listed p mem f (same.symm.trans present) before
    case gone =>
      intro p mem known absent
      by_contra unremoved
      obtain ⟨before, was⟩ := stayed p absent (Bool.not_eq_true _ ▸ unremoved)
      rw [current.gone p mem known was] at before
      cases before
  case forgotten => exact inv.forgotten
  case moved => exact inv.moved
  case remote => exact inv.remote

theorem saved_of_not_unsaved (kept : s.unsaved p = false) :
    s.dir.base[p]? = s.saved[p]? ∧ s.lost p ≠ true ∧ s.phase.adrift p ≠ true := by
  rw [State.unsaved, Bool.or_eq_false_iff, Bool.or_eq_false_iff, decide_eq_false_iff_not,
    not_not] at kept
  exact ⟨kept.1.1, Bool.eq_false_iff.mp kept.1.2, Bool.eq_false_iff.mp kept.2⟩

/-- An unedited file is the saved one, unless its record is not saved. -/
theorem Inv.restart_covers (inv : Inv s) (kept : s.unsaved p = false) (present : s.file? p = some f)
    (unedited : s.edited p = false) : covers s.restart.dir p = true := by
  obtain ⟨same, found, still⟩ := saved_of_not_unsaved kept
  rcases inv.recorded p f present unedited with covered | lost | adrift
  · obtain ⟨f', onDisk, b, entry, alike⟩ := covers_iff.mp covered
    exact covers_iff.mpr ⟨f', onDisk, b, same.symm.trans entry, alike⟩
  · exact absurd lost found
  · exact absurd adrift still

theorem Inv.restart_forgets (inv : Inv s) (kept : s.unsaved p = false) (absent : s.file? p = none)
    (unremoved : s.removed p = false) : s.saved[p]? = none := by
  obtain ⟨same, found, still⟩ := saved_of_not_unsaved kept
  rcases inv.unrecorded p absent unremoved with free | lost | adrift
  · exact same.symm.trans free
  · exact absurd lost found
  · exact absurd adrift still

theorem Inv.restart (inv : Inv s) : Inv s.restart where
  recorded p f present unedited := by
    cases kept : s.unsaved p with
    | true => exact .inr (.inl kept)
    | false => exact .inl (inv.restart_covers kept present unedited)
  unrecorded p absent unremoved := by
    cases kept : s.unsaved p with
    | true => exact .inr (.inl kept)
    | false => exact .inl (inv.restart_forgets kept absent unremoved)
  valid := inv.valid
  loop _ now := nomatch now
  forgotten _ now := nomatch now
  moved _ _ _ now := nomatch now
  remote _ now := nomatch now

/-- Only the phase changes, or what no invariant speaks of. -/
theorem Inv.turn (inv : Inv s) {saved : ExtTreeMap Bytes FileInfo} {phase : Phase}
    (calm : ∀ q, s.phase.adrift q = false)
    (loop : ∀ loop, phase.loop? = some loop → loop.Current s)
    (forgotten : ∀ n, phase ≠ .forgotten n) (moved : ∀ n temp next, phase ≠ .moved n temp next)
    (remote : ∀ remote, phase = .listed remote → ∀ p, remote[p]?.isSome → isValidPath p = true) :
    Inv { s with saved, phase } where
  recorded p f present unedited := by
    rcases inv.recorded p f present unedited with covered | lost | adrift
    · exact .inl covered
    · exact .inr (.inl lost)
    · cases adrift.symm.trans (calm p)
  unrecorded p absent unremoved := by
    rcases inv.unrecorded p absent unremoved with free | lost | adrift
    · exact .inl free
    · exact .inr (.inl lost)
    · cases adrift.symm.trans (calm p)
  valid := inv.valid
  loop next now :=
    have current := loop next now
    ⟨current.nodup, current.valid, current.listed, current.gone⟩
  forgotten n now := absurd now (forgotten n)
  moved n temp next now := absurd now (moved n temp next)
  remote := remote

theorem Inv.goOn (inv : Inv s) {saved : ExtTreeMap Bytes FileInfo} {phase : Phase}
    (calm : ∀ q, s.phase.adrift q = false) (plain : phase.Plain)
    (loop : ∀ loop, phase.loop? = some loop → loop.Current s) : Inv { s with saved, phase } :=
  inv.turn calm loop plain.not_forgotten plain.not_moved
    fun remote now => absurd now (plain.not_listed remote)

theorem here_loopOf (d : SyncDir) (remote : ExtTreeMap Bytes FileInfo) (p : Bytes) :
    (loopOf d remote).here p =
      if isValidPath p then (d.tree.file? p).map (d.fillHash p) else none :=
  getElem?_listing_eq ..

theorem Inv.list (inv : Inv s) (idle : s.phase = .idle) :
    Inv { s with phase := .listed (remoteFiles s.server) } := by
  refine inv.turn (Phase.calm idle fun _ => rfl) nofun nofun nofun ?_
  rintro _ ⟨⟩ p listed
  rw [remoteFiles, getElem?_listing_eq] at listed
  split at listed
  · assumption
  · cases listed

theorem current_loopOf (inv : Inv s) {remote : ExtTreeMap Bytes FileInfo}
    (valid : ∀ p, remote[p]?.isSome → isValidPath p = true) : (loopOf s.dir remote).Current s where
  nodup := ExtTreeMap.distinct_keys.imp fun apart same => apart (Std.compare_eq_iff_eq.mpr same)
  valid p known := by
    refine known.elim (fun here => ?_) (valid p)
    rw [here_loopOf] at here
    split at here
    · assumption
    · cases here
  listed p _ f present unedited := by
    rw [here_loopOf, if_pos (inv.valid p f present unedited)]
    exact congrArg (Option.map _) present
  gone p _ known absent := by
    rw [here_loopOf, show s.dir.tree.file? p = none from absent] at known
    split at known <;> cases known

theorem framed_makeWay (temp : File) (stamp : Stamp) :
    Framed s ⟨s.dir.makeWay name temp stamp, s.server⟩ name := by
  intro q other
  refine ⟨by rw [SyncDir.base_makeWay], ?_⟩
  unfold SyncDir.makeWay
  split
  · exact (SyncDir.file?_keepCopy_of_ne other).imp_right And.left
  · exact .inl rfl

/-- The received file is about to move in. -/
theorem Inv.makeWay (inv : Inv s) (calm : ∀ q, s.phase.adrift q = false)
    (valid : isValidPath name = true) {temp : File} {stamp : Stamp} {next : Option Loop}
    (loop : ∀ loop, next = some loop → loop.Current s ∧ name ∉ loop.names) :
    Inv (s.act ⟨s.dir.makeWay name temp stamp, s.server⟩ name (.moved name temp next)) := by
  refine inv.act (framed_makeWay temp stamp) (fun q _ => calm q) ?_ ?_ (fun _ => valid) loop nofun
    ?_ nofun
  · exact fun _ _ _ _ _ => .inr (decide_eq_true rfl)
  · exact fun _ _ => .inr (decide_eq_true rfl)
  · intro n temp' next' now
    cases now
    exact ⟨valid, fun loop' now => (loop loop' now).2⟩

theorem Inv.place (inv : Inv s) {temp : File} {next : Option Loop}
    (now : s.phase = .moved name temp next) :
    Inv (s.act ⟨s.dir.moveIn name temp, s.server⟩ name (.unsaved next)) := by
  obtain ⟨valid, new⟩ := inv.moved name temp next now
  refine inv.act ?_ ?_ ?_ ?_ (fun _ => valid) ?_ nofun nofun nofun
  · exact fun q other => ⟨SyncDir.base_moveIn_of_ne other,
      .inl (FileTree.file?_put_of_ne _ _ other)⟩
  · intro q other
    rw [now]
    exact decide_eq_false (Ne.symm other)
  · intro f present present' unedited recorded
    have ok : (s.dir.tree.put name temp).2 = true :=
      FileTree.put_ok_iff.mpr (FileTree.free_of_file present)
    refine .inl (covers_iff.mpr ⟨temp, ?_, temp.info name, ?_, sameContent_iff.mpr ⟨rfl, rfl⟩⟩)
    · exact (FileTree.file?_put ok name).trans (if_pos rfl)
    · change (if (s.dir.tree.put name temp).2 then _ else _)[name]? = _
      rw [if_pos ok, Map.getElem?_insert, if_pos rfl]
  · intro absent _
    change (s.dir.tree.put name temp).1.file? name = none at absent
    cases ok : (s.dir.tree.put name temp).2 with
    | true =>
      rw [FileTree.file?_put ok, if_pos rfl] at absent
      cases absent
    | false =>
      refine .inl ?_
      change (if (s.dir.tree.put name temp).2 then _ else _)[name]? = _
      rw [ok, if_neg Bool.false_ne_true, Map.getElem?_erase, if_pos rfl]
  · intro loop same
    refine ⟨inv.loop loop ?_, new loop same⟩
    rw [now]
    exact same

theorem Inv.forget (inv : Inv s) (idle : s.phase = .idle) (valid : isValidPath name = true) :
    Inv (s.act ⟨{ s.dir with base := s.dir.base.erase name }, s.server⟩ name
      (.forgotten name)) := by
  refine inv.act ?_ ?_ ?_ ?_ (fun _ => valid) nofun ?_ nofun nofun
  · exact fun q other => ⟨(Map.getElem?_erase ..).trans (if_neg other), .inl rfl⟩
  · exact fun q _ => Phase.calm idle (fun _ => rfl) q
  · exact fun _ _ _ _ _ => .inr (decide_eq_true rfl)
  · exact fun _ _ => .inr (decide_eq_true rfl)
  · intro n now
    cases now
    exact (Map.getElem?_erase ..).trans (if_pos rfl)

theorem Inv.unlink (inv : Inv s) (now : s.phase = .forgotten name) :
    Inv (s.act ⟨{ s.dir with tree := (s.dir.tree.delete name).1 }, s.server⟩ name .idle) := by
  have gone : (s.dir.tree.delete name).1.file? name = none :=
    (FileTree.file?_delete ..).trans (if_pos rfl)
  refine inv.act ?_ ?_ ?_ ?_ ?_ nofun nofun nofun nofun
  · exact fun q other => ⟨rfl, .inl ((FileTree.file?_delete ..).trans (if_neg other))⟩
  · intro q other
    rw [now]
    exact decide_eq_false (Ne.symm other)
  · intro f _ present
    exact nomatch gone.symm.trans present
  · exact fun _ _ => .inl (inv.forgotten name now)
  · intro covered
    obtain ⟨f, present, -⟩ := covers_iff.mp covered
    exact nomatch gone.symm.trans present

/-- A local change leaves a path that is in sync. -/
theorem Inv.change (inv : Inv s) (idle : s.phase = .idle) (valid : isValidPath name = true)
    {e : Exchange} {phase : Phase} (next : phase = .idle ∨ phase = .unsaved none) :
    Inv (s.act (syncLocalChange s.sides name e).1 name phase) := by
  have tree : (syncLocalChange s.sides name e).1.dir.tree = s.dir.tree := by
    unfold syncLocalChange
    split
    · split
      · rfl
      · dsimp only
        split <;> rfl
    · dsimp only
      split <;> rfl
    · rfl
  have calm := Phase.calm idle fun _ => rfl
  have plain : phase.Plain := by
    rcases next with rfl | rfl
    · exact .idle
    · exact .unsaved none
  refine inv.act ?_ (fun q _ => calm q) ?_ ?_ (fun _ => valid) ?_
    (fun n now => absurd now (plain.not_forgotten n))
    (fun n temp next now => absurd now (plain.not_moved n temp next)) plain.not_listed
  · exact fun q other => ⟨(Echo.syncLocalChange_frame s.sides e other).2,
      .inl (congrArg (·.file? q) tree)⟩
  · intro f present _ _ held
    rcases held with covered | adrift
    · obtain ⟨unchanged, -⟩ := unchanged_of_covers covered present
      have settled : s.dir.Settled name := by
        rw [SyncDir.Settled, SyncDir.request?, SyncDir.localFile,
          show s.dir.tree.file? name = some f from present]
        exact if_pos unchanged
      rw [Echo.syncLocalChange_of_settled (s := s.sides) settled]
      exact .inl covered
    · cases adrift.symm.trans (calm name)
  · intro absent held
    rw [tree] at absent
    rcases held with present | ⟨-, free | adrift⟩
    · exact absurd absent present
    · have settled : s.dir.Settled name := SyncDir.settled_of_absent absent free
      rw [Echo.syncLocalChange_of_settled (s := s.sides) settled]
      exact .inl free
    · cases adrift.symm.trans (calm name)
  · intro loop now
    rcases next with rfl | rfl <;> cases now

/-- What the loop body leaves in sync_dir, unless it downloads. -/
inductive Left (here there : Option FileInfo) (d : SyncDir) (name : Bytes) : SyncDir → Prop
  | kept (known : here.isSome ∨ there.isSome) : Left here there d name d
  | recorded (h : FileInfo) (local_ : here = some h) :
      Left here there d name { d with base := d.base.insert name h }
  | forgot (local_ : here = none) : Left here there d name { d with base := d.base.erase name }
  | deleted : Left here there d name ⟨removeLocal d.tree name, d.base.erase name⟩

theorem known_of_pulls {base here there : Option FileInfo} (pulled : pulls base here there = true) :
    there.isSome = true := by
  unfold pulls at pulled
  split at pulled
  · rfl
  · cases pulled

theorem reconcileName_left {s : Sides} {here there : Option FileInfo} (o : Outcome)
    (stays : pulls s.dir.base[name]? here there = false) :
    Left here there s.dir name (reconcileName here there o s name).1.dir := by
  have push : ∀ h, here = some h →
      Left here there s.dir name (reconcileName.push o name s h).1.dir := by
    intro h local_
    unfold reconcileName.push
    dsimp only
    split
    · exact .recorded h local_
    · exact .kept (.inl (by rw [local_]; rfl))
  unfold reconcileName
  cases here with
  | none =>
    cases there with
    | none => exact .forgot rfl
    | some t =>
      have pushed : shouldPush s.dir.base[name]? none (some t) = true := by
        simpa [pulls] using stays
      dsimp only
      rw [if_pos pushed]
      dsimp only
      split
      · exact .kept (.inr rfl)
      · exact .forgot rfl
  | some h =>
    cases there with
    | none =>
      dsimp only
      split
      · exact push h rfl
      · exact .deleted
    | some t =>
      dsimp only
      split
      · exact .recorded h rfl
      · rename_i differs
        have pushed : shouldPush s.dir.base[name]? (some h) (some t) = true := by
          simpa [pulls, differs] using stays
        rw [if_pos pushed]
        exact push h rfl

/-- The loop body at a path that is not downloaded. -/
theorem Inv.body (inv : Inv s) {here there : Bytes → Option FileInfo} {names : List Bytes}
    (now : s.phase = .reconciling ⟨here, there, name :: names⟩) (o : Outcome)
    (stays : pulls s.dir.base[name]? (here name) (there name) = false) {phase : Phase}
    (next : phase = .unsaved none ∨ phase = .reconciling ⟨here, there, names⟩) :
    Inv (s.act (reconcileName (here name) (there name) o s.sides name).1 name phase) := by
  have current := inv.loop _ (congrArg Phase.loop? now)
  have did := reconcileName_did (here name) (there name) o s.sides name
  have left := reconcileName_left (s := s.sides) o stays
  have calm := Phase.calm now fun _ => rfl
  have framed : Framed s (reconcileName (here name) (there name) o s.sides name).1 name :=
    fun q other => ⟨did.base_of_ne other, did.file_of_ne other⟩
  generalize (reconcileName (here name) (there name) o s.sides name).1 = sides at framed left
  obtain ⟨d, server⟩ := sides
  dsimp only at left
  have plain : phase.Plain := by
    rcases next with rfl | rfl
    · exact .unsaved none
    · exact .reconciling _
  refine inv.act framed (fun q _ => calm q) ?_ ?_ ?_ ?_
    (fun n now => absurd now (plain.not_forgotten n))
    (fun n temp next now => absurd now (plain.not_moved n temp next)) plain.not_listed
  · intro f present present' unedited held
    have listed := current.listed name List.mem_cons_self f present unedited
    rcases held with covered | adrift
    · cases left with
      | kept => exact .inl covered
      | recorded h local_ =>
        cases local_.symm.trans listed
        exact .inl (covers_iff.mpr ⟨f, present, _, (Map.getElem?_insert ..).trans (if_pos rfl),
          (unchanged_of_covers covered present).2⟩)
      | forgot local_ => cases local_.symm.trans listed
      | deleted =>
        have onDisk : s.dir.tree.file? name = some f := present
        dsimp only at present'
        rw [State.sides, removeLocal_of_present onDisk, FileTree.file?_delete,
          if_pos rfl] at present'
        cases present'
    · cases adrift.symm.trans (calm name)
  · intro absent held
    cases left with
    | kept =>
      rcases held with present | ⟨-, free | adrift⟩
      · exact absurd absent present
      · exact .inl free
      · cases adrift.symm.trans (calm name)
    | recorded h local_ =>
      have known : (here name).isSome = true := by rw [local_]; rfl
      have removed := current.gone name List.mem_cons_self known absent
      rcases held with present | ⟨unremoved, -⟩
      · exact absurd absent present
      · rw [removed] at unremoved
        cases unremoved
    | forgot | deleted => exact .inl ((Map.getElem?_erase ..).trans (if_pos rfl))
  · intro covered
    cases left with
    | kept known => exact current.valid name known
    | recorded h local_ =>
      have known : (here name).isSome = true := by rw [local_]; rfl
      exact current.valid name (.inl known)
    | forgot | deleted =>
      obtain ⟨f, -, b, entry, -⟩ := covers_iff.mp covered
      cases ((Map.getElem?_erase ..).trans (if_pos rfl)).symm.trans entry
  · rcases next with rfl | rfl
    · intro loop now
      cases now
    · rintro _ ⟨⟩
      exact ⟨current.tail, (List.nodup_cons.mp current.nodup).1⟩

theorem Inv.of_base (inv : Inv s) {saved : ExtTreeMap Bytes FileInfo} {server : UserDir} :
    Inv { s with saved, server } where
  recorded := inv.recorded
  unrecorded := inv.unrecorded
  valid := inv.valid
  loop next now :=
    have current := inv.loop next now
    ⟨current.nodup, current.valid, current.listed, current.gone⟩
  forgotten := inv.forgotten
  moved := inv.moved
  remote := inv.remote

theorem Inv.step {label : Label} (inv : Inv s) (stepped : Crash.step s label = some s') :
    Inv s' := by
  cases label with
  | user tree =>
    cases stepped
    exact inv.byUser tree
  | others server =>
    cases stepped
    exact inv.of_base
  | kill =>
    cases stepped
    exact inv.restart
  | pushFile name temp stamp =>
    rw [Crash.step] at stepped
    split at stepped
    · rename_i idle
      split at stepped <;> cases stepped
      · rename_i valid
        exact inv.makeWay (Phase.calm idle fun _ => rfl) valid
          fun loop now => (by cases now)
      · exact inv
    · cases stepped
  | pushDelete name ok =>
    rw [Crash.step] at stepped
    split at stepped
    · rename_i idle
      split at stepped <;> cases stepped
      · rename_i valid
        exact (inv.forget idle valid).of_base
      · exact inv
    · cases stepped
  | change name e =>
    rw [Crash.step] at stepped
    split at stepped
    · rename_i idle
      split at stepped <;> cases stepped
      rename_i valid
      exact inv.change idle valid (ite_eq_or_eq ..).symm
    · cases stepped
  | place =>
    rw [Crash.step] at stepped
    split at stepped <;> cases stepped
    rename_i now
    exact inv.place now
  | unlink =>
    rw [Crash.step] at stepped
    split at stepped <;> cases stepped
    rename_i now
    exact inv.unlink now
  | save ok =>
    rw [Crash.step] at stepped
    split at stepped <;> cases stepped
    rename_i next now
    have calm := Phase.calm now fun _ => rfl
    cases next with
    | none => exact inv.goOn calm .idle fun loop now => (by cases now)
    | some loop =>
      refine inv.goOn calm (.reconciling loop) ?_
      rintro _ ⟨⟩
      exact inv.loop loop (congrArg Phase.loop? now)
  | list =>
    rw [Crash.step] at stepped
    split at stepped <;> cases stepped
    rename_i idle
    exact inv.list idle
  | scan =>
    rw [Crash.step] at stepped
    split at stepped <;> cases stepped
    rename_i remote now
    have calm := Phase.calm now fun _ => rfl
    refine inv.goOn calm (.reconciling _) ?_
    rintro _ ⟨⟩
    exact current_loopOf inv (inv.remote remote now)
  | body o =>
    rw [Crash.step] at stepped
    split at stepped
    · rename_i here there name names now
      have current := inv.loop _ (congrArg Phase.loop? now)
      have calm := Phase.calm now fun _ => rfl
      dsimp only at stepped
      split at stepped
      · rename_i pulled
        split at stepped <;> cases stepped
        · refine inv.makeWay calm (current.valid name (.inr (known_of_pulls pulled))) ?_
          rintro _ ⟨⟩
          exact ⟨current.tail, (List.nodup_cons.mp current.nodup).1⟩
        · split
          · exact inv.goOn calm (.unsaved none) fun loop now => (by cases now)
          · refine inv.goOn calm (.reconciling _) ?_
            rintro _ ⟨⟩
            exact current.tail
      · rename_i stays
        cases stepped
        exact inv.body now o (Bool.not_eq_true _ ▸ stays) (ite_eq_or_eq ..)
    · cases stepped
      rename_i now
      exact inv.goOn (Phase.calm now fun _ => rfl) (.unsaved none) fun loop now => (by cases now)
    · cases stepped

theorem inv_init (tree : FileTree Bytes File) (server : UserDir) : Inv (init tree server) where
  recorded _ _ _ unedited := nomatch unedited
  unrecorded _ _ _ := .inl rfl
  valid _ _ _ unedited := nomatch unedited
  loop _ now := nomatch now
  forgotten _ now := nomatch now
  moved _ _ _ now := nomatch now
  remote _ now := nomatch now

/-- **What a restart undoes.** In every run of installs, pushed deletions, local
changes and reconciles, cut anywhere, the reconcile after a restart neither brings
back a deletion nor makes one up, wherever the server has kept or undone what the
state file misses. -/
theorem crash_consistent {tree : FileTree Bytes File} {server : UserDir} {labels : List Label}
    (ran : run step (init tree server) labels = some s) (recoverable : Recoverable s) :
    Consistent s.restart := by
  have inv : Inv s := run_invariant_of_step (fun _ _ _ => Inv.step) (inv_init tree server) ran
  constructor
  case upload =>
    intro listed outcome p absent appears
    obtain ⟨f, present, changed⟩ := reconcile_uploads absent appears
    by_contra unedited
    rw [Bool.not_eq_true] at unedited
    cases kept : s.unsaved p with
    | true =>
      rw [SyncDir.fillHash_of_changed changed] at changed
      have same := (recoverable p kept).1 f present unedited absent
      exact absurd (same.symm.trans changed) nofun
    | false =>
      have covered := inv.restart_covers kept present unedited
      have same := (unchanged_of_covers covered present).1
      exact absurd (same.symm.trans changed) nofun
  case delete =>
    intro listed outcome p present disappears
    obtain ⟨g, onServer⟩ := Option.ne_none_iff_exists'.mp present
    obtain ⟨absent, unchanged⟩ := reconcile_deletes onServer disappears
    by_contra unremoved
    rw [Bool.not_eq_true] at unremoved
    cases kept : s.unsaved p with
    | true =>
      have differs := (recoverable p kept).2 absent unremoved g onServer
      exact absurd (unchanged.symm.trans differs) nofun
    | false =>
      have free : s.restart.sides.dir.base[p]? = none :=
        inv.restart_forgets kept absent unremoved
      rw [free] at unchanged
      cases unchanged

section Examples

/-- The server with one file, `x`. -/
def oneFile : UserDir := (∅ : UserDir).put (bytes "x") hereOne

/-- `x` was received and saved, another client deletes it, and the client is
killed after it saved that it has no `x` and before the unlink: it uploads `x`. -/
theorem deletion_undone :
    ¬∀ (tree : FileTree Bytes File) (server : UserDir) (labels : List Label) (s : State),
      run step (init tree server) labels = some s → Consistent s.restart := by
  intro claim
  have ran : run step (init ∅ oneFile) [.pushFile (bytes "x") hereOne noon, .place, .save true,
    .others ∅, .pushDelete (bytes "x") true] = some _ := rfl
  have consistent := claim _ _ _ _ ran
  have edited := consistent.upload .answered (fun _ => ⟨.answered, noon⟩) (bytes "x")
    (by decide +kernel) (by decide +kernel)
  exact absurd edited (by decide +kernel)

/-- Killed after the received file moved in and before it is saved, with the
server as it was. -/
theorem crash_consistent_unsaved :
    ∃ s, run step (init ∅ oneFile) [.pushFile (bytes "x") hereOne noon, .place] = some s ∧
      s.unsaved (bytes "x") = true ∧ Consistent s.restart := by
  have ran : run step (init ∅ oneFile) [.pushFile (bytes "x") hereOne noon, .place] = some _ := rfl
  refine ⟨_, ran, by decide +kernel, crash_consistent ran fun p _ => ?_⟩
  by_cases here : p = bytes "x"
  · subst here
    exact ⟨fun _ _ _ absent => absurd absent (by decide +kernel),
      fun absent => absurd absent (by decide +kernel)⟩
  · have noFile : ((∅ : FileTree Bytes File).put (bytes "x") hereOne).1.file? p = none :=
      (FileTree.file?_put_of_ne _ _ here).trans (FileTree.file?_empty p)
    exact ⟨fun f present => absurd (present.symm.trans noFile) nofun,
      fun _ _ g present => absurd (present.symm.trans noFile) nofun⟩

end Examples

end SisOp.Crash
