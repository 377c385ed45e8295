import SisOp.Client.Sessions

/-!
# Concurrent edits of one file

Two sessions in sync each edit the same file once, on top of the same version.
A session whose edit is still unsynced when the other's arrives keeps it as a
conflicted copy; but an upload is stored whatever version the server has by
then, so an upload that crosses the push of the other's edit replaces it.

Main result: `both_kept`, when every upload is committed while the server still
has the version the session last synced, both edits are on the server in the
end, one at the path and the other at a conflicted-copy name.
-/

namespace SisOp.Sessions

open Lib Std Function

/-! ## What the two sessions do -/

/-- Each session edits `p` on top of the version `v`, and nothing else is edited
or deleted. -/
def Edits (p : Bytes) (v : Option Bytes) (x : Side → Bytes) (s : State) : Label → Prop
  | .edit i name file => name = p ∧ file.content = x i ∧ (s.session i).dir.content? p = v
  | .erase _ _ => False
  | _ => True

/-- A change is committed while the server has the version the session last
synced. -/
def OnTopOfBase (s : State) : Label → Prop
  | .commit i =>
    match (s.session i).call with
    | .received request =>
      Matches (s.session i).dir.base[request.name]? (s.content? request.name)
    | _ => True
  | _ => True

/-- A conflicted copy can be kept: the local file is hashed right, and no folder
has the copy's name. -/
def Keepable (s : State) : Label → Prop
  | .deliver i stamp =>
    match (s.session i).pushes with
    | .file name _ :: _ => (s.session i).dir.HashSaved name ∧
        (s.session i).dir.tree.node (conflictName (s.session i).dir.tree name stamp) ≠ some .dir
    | _ => True
  | _ => True

instance (p : Bytes) (v : Option Bytes) (x : Side → Bytes) (s : State) :
    ∀ label, Decidable (Edits p v x s label)
  | .edit i name file => inferInstanceAs (Decidable (name = p ∧ file.content = x i ∧
      (s.session i).dir.content? p = v))
  | .erase _ _ => isFalse id
  | .begin _ _ | .send _ | .receive _ | .commit _ | .answer _ | .push _ | .finish
      _ | .deliver _ _ =>
    isTrue trivial

instance : ∀ (info : Option FileInfo) (content : Option Bytes), Decidable (Matches info content)
  | some _, some _ => inferInstanceAs (Decidable (_ ∧ _))
  | none, none => isTrue trivial
  | some _, none | none, some _ => isFalse id

instance (s : State) : ∀ label, Decidable (OnTopOfBase s label)
  | .commit i =>
    match call : (s.session i).call with
    | .received request =>
      decidable_of_iff (Matches (s.session i).dir.base[request.name]? (s.content? request.name)) (by
        simp only [OnTopOfBase, call])
    | .idle | .sent _ | .decided _ | .answered _ => isTrue (by simp only [OnTopOfBase, call])
  | .edit _ _ _ | .erase _ _ | .begin _ _ | .send _ | .receive _ | .answer _ | .push _ | .finish _
  | .deliver _ _ => isTrue trivial

instance (s : State) : ∀ label, Decidable (Keepable s label)
  | .deliver i stamp =>
    match pushes : (s.session i).pushes with
    | .file name _ :: _ =>
      decidable_of_iff ((s.session i).dir.HashSaved name ∧ (s.session i).dir.tree.node
        (conflictName (s.session i).dir.tree name stamp) ≠ some .dir) (by
        simp only [Keepable, pushes])
    | .delete _ :: _ | [] => isTrue (by simp only [Keepable, pushes])
  | .edit _ _ _ | .erase _ _ | .begin _ _ | .send _ | .receive _ | .commit _ | .answer _ | .push _
  | .finish _ => isTrue trivial

/-- The name of a conflicted copy of `p`. -/
def IsCopyOf (p q : Bytes) : Prop :=
  ∃ stamp : Stamp, ∃ attempt ≥ 1, q = conflictCandidate p stamp attempt

/-! ## One session -/

/-- The request that is not served yet. -/
def Call.request : Call → Option Request
  | .sent request | .received request => some request
  | .idle | .decided _ | .answered _ => none

/-- A session that has these contents and was told, by push or reply, that the
server has those it saved. -/
structure Runs (saved now : Bytes → Option Bytes) (c : Session) : Prop where
  content : ∀ r, c.dir.content? r = now r
  told : ∀ r, Matches c.settled[r]? (saved r)
  present : ∀ r, c.worker ≠ .missing r
  changed : ∀ r here, c.worker = .changed r here → saved r ≠ now r
  asked : ∀ request, c.call.request = some request →
    request.file?.map File.content = now request.name ∧ saved request.name ≠ now request.name

section OneSession

variable {K : Bytes → Prop} {content : Bytes → Option Bytes} {pending : Option Pending}
  {saved now : Bytes → Option Bytes} {c : Session} {name : Bytes}

/-- The user changes a file that is in sync. -/
theorem Runs.edited (runs : Runs saved now c) (synced : saved name = now name)
    (tree : FileTree Bytes File) {y : Bytes}
    (other : ∀ q, q ≠ name → tree.file? q = c.dir.tree.file? q)
    (edited : (tree.file? name).map File.content = some y) (events : List Bytes) :
    Runs saved (update now name (some y)) { c with dir := { c.dir with tree }, events } where
  content r := by
    by_cases here : r = name
    · subst r
      rw [update_self]
      exact edited
    · rw [update_of_ne here, ← runs.content r, SyncDir.content?, SyncDir.content?, other r here]
  told := runs.told
  present := runs.present
  changed r here changed := by
    have differs := runs.changed r here changed
    rwa [update_of_ne (by rintro rfl; exact differs synced)]
  asked request asked := by
    have differs := runs.asked request asked
    have elsewhere : request.name ≠ name := fun same => differs.2 (by rw [same, synced])
    rwa [update_of_ne elsewhere]

theorem Runs.begin (runs : Runs saved now c) (inv : SessionInv K content pending c)
    (idle : c.worker = .idle) (hashed : c.dir.HashSaved name)
    (gone : now name = none → saved name = none) (events : List Bytes) :
    Runs saved now { c with worker := lookAt c.dir name, events } := by
  have call := inv.call_idle (by rw [idle]; nofun)
  have settled : Session.settled { c with worker := lookAt c.dir name, events } = c.settled := by
    simp only [Session.settled, call, idle]
    cases lookAt c.dir name <;> rfl
  have base := runs.told name
  simp only [Session.settled, idle] at base
  have seen := matches_lookAt c.dir hashed
  rw [runs.content] at seen
  refine { content := runs.content, told := fun r => settled.symm ▸ runs.told r
           present := fun r missing => ?_, changed := fun r here changed same => ?_
           asked := runs.asked }
  · dsimp only at missing
    rw [missing] at seen
    obtain ⟨rfl, absent⟩ := seen
    -- nothing is saved of a path without a file
    have none' : now r = none := by
      cases has : now r with
      | none => rfl
      | some y =>
        rw [has] at absent
        cases absent
    rw [gone none'] at base
    unfold lookAt at missing
    cases entry : c.dir.base[r]? with
    | some info =>
      rw [entry] at base
      cases base
    | none =>
      rw [entry] at missing
      cases file : c.dir.localFile r <;> rw [file] at missing <;> cases missing
  · dsimp only at changed
    rw [changed] at seen
    obtain ⟨rfl, records⟩ := seen
    -- a path that has what was saved of it is found to be in sync
    rw [same] at base
    unfold lookAt at changed
    cases entry : c.dir.base[r]? with
    | none =>
      rw [entry] at base
      cases has : now r with
      | none =>
        rw [has] at records
        cases records
      | some y =>
        rw [has] at base
        cases base
    | some info =>
      cases file : c.dir.localFile r with
      | none =>
        rw [file, entry] at changed
        cases changed
      | some found =>
        rw [file, entry] at changed
        dsimp only at changed
        split at changed <;> cases changed
        rename_i differ
        refine differ ((Option.any_some ..).trans ?_)
        cases has : now r with
        | none =>
          rw [has] at records
          cases records
        | some y =>
          rw [entry, has] at base
          rw [has] at records
          exact sameContent_iff.mpr ⟨base.1.trans records.1.symm, base.2.trans records.2.symm⟩

theorem Runs.send (runs : Runs saved now c) {here : FileInfo}
    (changed : c.worker = .changed name here)
    {file : File} (present : c.dir.tree.file? name = some file) :
    Runs saved now
      { c with worker := .waiting name (some here), call := .sent (.upload name file) } where
  content := runs.content
  told r := by
    have before := runs.told r
    simp only [Session.settled, changed] at before
    exact before
  present := nofun
  changed := nofun
  asked := by
    rintro _ ⟨⟩
    refine ⟨?_, runs.changed name here changed⟩
    rw [← runs.content, SyncDir.content?, show (Request.upload name file).name = name from rfl,
      present]
    rfl

theorem Runs.receive (runs : Runs saved now c) {request : Request} (sent : c.call = .sent request) :
    Runs saved now { c with call := .received request } where
  content := runs.content
  told r := by
    have before := runs.told r
    simp only [Session.settled, sent] at before ⊢
    cases worker : c.worker <;> rw [worker] at before <;> exact before
  present := runs.present
  changed := runs.changed
  asked := by
    rintro _ ⟨⟩
    exact runs.asked request (by rw [sent]; rfl)

theorem Runs.answer (runs : Runs saved now c) {ok : Bool} (decided : c.call = .decided ok) :
    Runs saved now { c with call := .answered ok } where
  content := runs.content
  told r := by
    have before := runs.told r
    simp only [Session.settled, decided] at before ⊢
    cases worker : c.worker <;> rw [worker] at before <;> exact before
  present := runs.present
  changed := runs.changed
  asked := nofun

theorem Runs.finish (runs : Runs saved now c) {here : Option FileInfo} {ok : Bool}
    (waiting : c.worker = .waiting name here) (answered : c.call = .answered ok) :
    Runs saved now { c with dir := { c.dir with base := recordSynced c.dir.base name here ok }
                            worker := .idle, call := .idle } where
  content := runs.content
  told r := by
    have before := runs.told r
    simp only [Session.settled, waiting, answered] at before
    exact before
  present := nofun
  changed := nofun
  asked := nofun

/-- The server commits the upload: the reply will tell the session so. -/
theorem Runs.commit (runs : Runs saved now c) (inv : SessionInv K content pending c) {file : File}
    (received : c.call = .received (.upload name file)) (toPush : Option Pending) :
    Runs (update saved name (now name)) now { c with
      call := .decided true, pending := toPush } := by
  have agree := inv.agree
  have content := (runs.asked _ (by rw [received]; rfl)).1
  rw [received] at agree
  cases worker : c.worker with
  | idle | changed | missing =>
    rw [worker] at agree
    cases agree
  | waiting n here =>
    rw [worker] at agree
    cases here with
    | none => cases agree
    | some here =>
      obtain ⟨rfl, records⟩ := agree
      refine { content := runs.content, told := fun r => ?_, present := nofun, changed := nofun,
               asked := nofun }
      · have before := runs.told r
        simp only [Session.settled, worker, received] at before
        simp only [Session.settled, recordSynced, if_true, Map.getElem?_insert]
        by_cases here : r = name
        · subst r
          rw [if_pos rfl, update_self]
          exact content ▸ records
        · rwa [if_neg here, update_of_ne here]

/-- What a push of a file changes in the saved state. -/
private theorem told_install (runs : Runs saved now c) (idle : c.worker = .idle) {file : File}
    {stamp : Stamp} (ok : c.dir.installable name file stamp = true) (r : Bytes) :
    Matches (c.dir.install name file stamp).base[r]? (update saved name (some file.content) r) := by
  by_cases here : r = name
  · subst r
    rw [update_self, (SyncDir.install_stores ok).2]
    exact records_info name file
  · have before := runs.told r
    simp only [Session.settled, idle] at before
    rwa [update_of_ne here, SyncDir.base_install_of_ne here]

/-- The local version is kept when it was never synced and is not what arrives. -/
theorem Runs.unsynced_iff (runs : Runs saved now c) (idle : c.worker = .idle)
    (apart : ∀ c d, K c → K d → fnv1a c = fnv1a d → c.length = d.length → c = d)
    (files : ∀ p y, c.dir.content? p = some y → K y) {old : Option File}
    (version : saved name = old.map File.content) (known : ∀ y, saved name = some y → K y)
    {file : File} (arriving : K file.content) (hashed : c.dir.HashSaved name) :
    c.dir.unsynced name (file.info name) = true ↔
      now name ≠ none ∧ now name ≠ some file.content ∧ now name ≠ saved name := by
  have content := runs.content name
  have base := runs.told name
  simp only [Session.settled, idle] at base
  unfold SyncDir.unsynced SyncDir.localFile
  cases present : c.dir.tree.file? name with
  | none =>
    rw [SyncDir.content?, present] at content
    exact ⟨fun unsynced => (by cases unsynced), fun some' => absurd content.symm some'.1⟩
  | some f =>
    have here : K f.content := files name _ (by rw [SyncDir.content?, present, Option.map_some])
    rw [SyncDir.content?, present, Option.map_some] at content
    have incoming : sameContent (f.info name) (file.info name) = true ↔
      f.content = file.content := by
      rw [sameContent_info_iff]
      refine ⟨fun same => apart _ _ here arriving same.1 same.2, fun same => ?_⟩
      rw [same]
      exact ⟨rfl, rfl⟩
    have synced : (c.dir.base[name]?.any fun info => sameContent info (f.info name)) = true ↔
        saved name = some f.content := by
      rw [Option.any_eq_true]
      constructor
      · rintro ⟨info, entry, same⟩
        rw [version] at base ⊢
        have both : Matches (some info) ((some f).map File.content) := sameContent_iff.mp same
        rw [entry] at base
        exact eq_of_matches apart base both (version ▸ known) fun _ eq => Option.some.inj eq ▸ here
      · intro same
        rw [same] at base
        cases entry : c.dir.base[name]? with
        | none =>
          rw [entry] at base
          cases base
        | some info =>
          rw [entry] at base
          exact ⟨info, rfl, sameContent_iff.mpr base⟩
    rw [Option.map_some, SyncDir.fillHash_eq hashed present, ← content]
    dsimp only
    rw [Bool.and_eq_true, Bool.not_eq_true', Bool.not_eq_true', ← Bool.not_eq_true,
      ← Bool.not_eq_true, incoming, synced]
    refine ⟨fun both =>
        ⟨Option.some_ne_none _, fun same => both.1 (Option.some.inj same),
          fun same => both.2 same.symm⟩,
      fun all => ⟨fun same => all.2.1 (congrArg some same), fun same => all.2.2 same.symm⟩⟩

/-- A push replaces a file that is in sync, or that is what arrives. -/
theorem Runs.replaced (runs : Runs saved now c) (idle : c.worker = .idle) (call : c.call = .idle)
    {file : File} {stamp : Stamp} (ok : c.dir.installable name file stamp = true)
    (synced : c.dir.unsynced name (file.info name) = false) (events : List Bytes)
    (pushes : List Push) :
    Runs (update saved name (some file.content)) (update now name (some file.content))
      { c with dir := c.dir.install name file stamp, events, pushes } where
  content r := by
    by_cases here : r = name
    · subst r
      rw [update_self, SyncDir.content?, (SyncDir.install_stores ok).1, Option.map_some]
    · rw [update_of_ne here, ← runs.content r, SyncDir.content?, SyncDir.content?]
      rcases SyncDir.file?_install_of_ne here with same | ⟨-, -, changed⟩
      · rw [same]
      · rw [synced] at changed
        cases changed
  told r := by
    simp only [Session.settled, idle]
    exact told_install runs idle ok r
  present r missing := by
    cases idle.symm.trans missing
  changed r here working := by
    cases idle.symm.trans working
  asked request asked := by
    rw [call] at asked
    cases asked

/-- A push keeps a file that was never synced, as a conflicted copy. -/
theorem Runs.kept (runs : Runs saved now c) (idle : c.worker = .idle) (call : c.call = .idle)
    (valid : isValidPath name = true) {file : File} {stamp : Stamp}
    (ok : c.dir.installable name file stamp = true)
    (changed : c.dir.unsynced name (file.info name) = true)
    (vacant : c.dir.tree.node (conflictName c.dir.tree name stamp) ≠ some .dir)
    (events : List Bytes) (pushes : List Push) :
    ∃ q, IsCopyOf name q ∧ q ≠ name ∧ now q = none ∧
      Runs (update saved name (some file.content))
        (update (update now name (some file.content)) q (now name))
        { c with dir := c.dir.install name file stamp, events, pushes } := by
  obtain ⟨⟨attempt, positive, candidate⟩, free⟩ := conflictName_spec c.dir.tree name stamp
  obtain ⟨f, present⟩ : ∃ f, c.dir.tree.file? name = some f := by
    cases present : c.dir.tree.file? name with
    | some f => exact ⟨f, rfl⟩
    | none =>
      rw [SyncDir.unsynced, SyncDir.localFile, present] at changed
      cases changed
  have moved := SyncDir.install_keeps valid present changed vacant
  have distinct : conflictName c.dir.tree name stamp ≠ name := SyncDir.conflictName_ne present
  refine ⟨conflictName c.dir.tree name stamp, ⟨stamp, attempt, positive, candidate⟩, distinct, ?_,
    ⟨fun r => ?_, fun r => ?_, ?_, ?_, ?_⟩⟩
  · rw [← runs.content, SyncDir.content?, free, Option.map_none]
  · by_cases copy : r = conflictName c.dir.tree name stamp
    · subst r
      rw [update_self, ← runs.content, SyncDir.content?, SyncDir.content?, moved, present]
    · rw [update_of_ne copy]
      by_cases here : r = name
      · subst r
        rw [update_self, SyncDir.content?, (SyncDir.install_stores ok).1, Option.map_some]
      · rw [update_of_ne here, ← runs.content r, SyncDir.content?, SyncDir.content?]
        rcases SyncDir.file?_install_of_ne here with same | ⟨-, at_, -⟩
        · rw [same]
        · exact absurd at_ copy
  · simp only [Session.settled, idle]
    exact told_install runs idle ok r
  · intro r missing
    cases idle.symm.trans missing
  · intro r here working
    cases idle.symm.trans working
  · intro request asked
    rw [call] at asked
    cases asked

end OneSession

/-! ## Both sessions and the server -/

/-- The contents on the server, those each session has and those it saved, and
the path each session has committed, if any. -/
structure Scene where
  server : Bytes → Option Bytes
  saved : Side → Bytes → Option Bytes
  now : Side → Bytes → Option Bytes
  sent : Side → Option Bytes

/-- The state is in the scene: what is pushed or about to be are the committed
paths, with the server's contents. -/
structure Shows (sc : Scene) (s : State) : Prop where
  server : ∀ r, s.content? r = sc.server r
  runs : ∀ i, Runs (sc.saved i) (sc.now i) (s.session i)
  pending : ∀ i toPush, (s.session i).pending = some toPush → ∃ r, sc.sent i = some r ∧
    toPush = .file r
  pushes : ∀ i push, push ∈ (s.session i.other).pushes → ∃ r file, sc.sent i = some r ∧
    push = .file r file ∧ sc.server r = some file.content

/-- What every scene of the story has in common: a session commits once, a
version that no push replaces. -/
structure Fits (K : Bytes → Prop) (p : Bytes) (before : Bytes → Option Bytes) (sc : Scene) :
    Prop where
  version : ∀ i r, ∃ old : Option File, sc.saved i r = old.map File.content
  known : ∀ i r y, sc.saved i r = some y → K y
  untouched : ∀ i, sc.now i p = before p → sc.saved i p = sc.now i p
  gone : ∀ i r, sc.now i r = none → sc.saved i r = none
  once : ∀ i r, sc.saved i r ≠ sc.now i r → sc.sent i = none
  alone : ∀ i r, sc.saved i r ≠ sc.now i r → sc.saved i r = sc.server r →
    sc.sent i.other ≠ some r

/-- How one step changes the scene. -/
inductive Next (p : Bytes) (before : Bytes → Option Bytes) (x : Side → File) (sc : Scene) :
    Label → Scene → Prop
  | same (label : Label) (noEdit : ∀ i name file, label ≠ .edit i name file) :
      Next p before x sc label sc
  | edited (i : Side) (name : Bytes) (file : File) (old : sc.now i p = before p) :
      Next p before x sc (.edit i name file)
        { sc with now := update sc.now i (update (sc.now i) p (some (x i).content)) }
  | committed (i : Side) (r : Bytes) (differs : sc.saved i r ≠ sc.now i r)
      (onTop : sc.saved i r = sc.server r) :
      Next p before x sc (.commit i)
        { sc with server := update sc.server r (sc.now i r)
                  saved := update sc.saved i (update (sc.saved i) r (sc.now i r))
                  sent := update sc.sent i (some r) }
  | replaced (i : Side) (stamp : Stamp) (r : Bytes) (sent : sc.sent i.other = some r)
      (old : sc.now i r = sc.saved i r ∨ sc.now i r = sc.server r) :
      Next p before x sc (.deliver i stamp)
        { sc with saved := update sc.saved i (update (sc.saved i) r (sc.server r))
                  now := update sc.now i (update (sc.now i) r (sc.server r)) }
  | kept (i : Side) (stamp : Stamp) (r q : Bytes) (sent : sc.sent i.other = some r)
      (new : sc.now i r ≠ sc.saved i r) (copy : IsCopyOf r q) (distinct : q ≠ r)
      (free : sc.now i q = none) :
      Next p before x sc (.deliver i stamp)
        { sc with saved := update sc.saved i (update (sc.saved i) r (sc.server r))
                  now := update sc.now i
                    (update (update (sc.now i) r (sc.server r)) q (sc.now i r)) }

section BothSessions

variable {K : Bytes → Prop} {p : Bytes} {before : Bytes → Option Bytes} {x : Side → File}
  {sc : Scene} {s s' : State} {i : Side} {label : Label}

/-- What is received is the upload of a version the server's copy is older than. -/
theorem Shows.received (shows : Shows sc s) (fits : Fits K p before sc) (inv : Inv K s)
    (apart : ∀ c d, K c → K d → fnv1a c = fnv1a d → c.length = d.length → c = d)
    {request : Request} (received : (s.session i).call = .received request)
    (onTop : OnTopOfBase s (.commit i)) :
    ∃ file, request = .upload request.name file ∧ sc.now i request.name = some file.content ∧
      sc.saved i request.name ≠ sc.now i request.name ∧
      sc.saved i request.name = sc.server request.name := by
  obtain ⟨content, differs⟩ := (shows.runs i).asked request (by rw [received]; rfl)
  have told := (shows.runs i).told request.name
  have settled : (s.session i).settled = (s.session i).dir.base := by
    simp only [Session.settled, received]
    cases (s.session i).worker <;> rfl
  simp only [OnTopOfBase, received] at onTop
  obtain ⟨old, version⟩ := fits.version i request.name
  rw [settled, version] at told
  have same : sc.saved i request.name = sc.server request.name := by
    rw [version, ← shows.server]
    exact eq_of_matches apart told onTop (version ▸ fits.known i _) (inv.files _)
  cases request with
  | upload name file => exact ⟨file, rfl, content.symm, differs, same⟩
  | delete name => exact absurd ((fits.gone i name content.symm).trans content) differs

/-- A change on top of what the server has is overtaken by no push. -/
theorem Shows.inTurn (shows : Shows sc s) (fits : Fits K p before sc) (inv : Inv K s)
    (apart : ∀ c d, K c → K d → fnv1a c = fnv1a d → c.length = d.length → c = d)
    (onTop : OnTopOfBase s label) : InTurn s label := by
  cases label with
  | commit i =>
    simp only [InTurn]
    cases received : (s.session i).call with
    | received request =>
      intro _
      obtain ⟨file, -, -, differs, same⟩ := shows.received fits inv apart received onTop
      refine ⟨fun push mem named => ?_, fun toPush => ?_⟩
      · obtain ⟨r, sent, committed, rfl, -⟩ := shows.pushes i.other push (by rwa [Side.other_other])
        exact fits.alone i request.name differs same (named ▸ committed)
      · obtain ⟨r, -, deletion⟩ := shows.pending i.other _ toPush
        cases deletion
    | idle | sent | decided | answered => trivial
  | edit | erase | begin | send | receive | answer | push | finish | deliver => trivial

/-- A step of one session that commits nothing. -/
theorem Shows.set (shows : Shows sc s) {c : Session} {saved now : Bytes → Option Bytes}
    (runs : Runs saved now c)
    (pending : ∀ toPush, c.pending = some toPush → (s.session i).pending = some toPush)
    (pushes : ∀ push ∈ c.pushes, push ∈ (s.session i).pushes ∨ ∃ r file,
      sc.sent i.other = some r ∧ push = .file r file ∧ sc.server r = some file.content) :
    Shows { sc with saved := update sc.saved i saved, now := update sc.now i now } (s.set i c) where
  server := shows.server
  runs j := by
    by_cases here : j = i
    · subst j
      simpa only [State.session_set_self, update_self] using runs
    · simpa only [State.session_set_of_ne here, update_of_ne here] using shows.runs j
  pending j toPush later := by
    by_cases here : j = i
    · subst j
      rw [State.session_set_self] at later
      exact shows.pending i toPush (pending toPush later)
    · rw [State.session_set_of_ne here] at later
      exact shows.pending j toPush later
  pushes j push mem := by
    rcases i.eq_or_eq_other j with rfl | rfl
    · rw [State.session_set_of_ne j.other_ne] at mem
      exact shows.pushes j push mem
    · rw [Side.other_other, State.session_set_self] at mem
      rcases pushes push mem with queued | new
      · exact shows.pushes i.other push (by rwa [Side.other_other])
      · exact new

theorem Shows.same (shows : Shows sc s) {c : Session} (runs : Runs (sc.saved i) (sc.now i) c)
    (pending : ∀ toPush, c.pending = some toPush → (s.session i).pending = some toPush)
    (pushes : ∀ push ∈ c.pushes, push ∈ (s.session i).pushes ∨ ∃ r file,
      sc.sent i.other = some r ∧ push = .file r file ∧ sc.server r = some file.content) :
    Shows sc (s.set i c) := by
  have set := shows.set runs pending pushes
  rwa [update_eq_self, update_eq_self] at set

/-- The server commits a version. -/
theorem Shows.commit (shows : Shows sc s) (fits : Fits K p before sc) (inv : Inv K s)
    (apart : ∀ c d, K c → K d → fnv1a c = fnv1a d → c.length = d.length → c = d)
    (accepted : Accepted K s (.commit i)) (onTop : OnTopOfBase s (.commit i))
    (stepped : step s (.commit i) = some s') :
    ∃ sc', Next p before x sc (.commit i) sc' ∧ Shows sc' s' := by
  simp only [step] at stepped
  split at stepped <;> cases stepped
  rename_i request received
  obtain ⟨file, upload, content, differs, same⟩ := shows.received fits inv apart received onTop
  generalize request.name = r at upload content differs same
  subst upload
  simp only [Accepted, received] at accepted
  obtain ⟨-, toPush, files⟩ := serve_ok accepted
  have once := fits.once i r differs
  refine ⟨_, .committed i r differs same, fun q => ?_, fun j => ?_, fun j later eq => ?_,
    fun j push mem => ?_⟩
  · rw [State.content?]
    dsimp only
    rw [files q]
    by_cases here : q = r
    · subst q
      rw [update_self, content]
      exact congrArg _ (if_pos rfl)
    · rw [update_of_ne here, ← shows.server q]
      exact congrArg _ (if_neg here)
  · rcases i.eq_or_eq_other j with rfl | rfl
    · dsimp only
      rw [State.session_set_self, update_self, accepted]
      exact (shows.runs j).commit (inv.session j) received _
    · dsimp only
      rw [State.session_set_of_ne i.other_ne, update_of_ne i.other_ne]
      exact shows.runs i.other
  · rcases i.eq_or_eq_other j with rfl | rfl
    · dsimp only at eq
      rw [State.session_set_self, toPush] at eq
      cases eq
      exact ⟨r, update_self .., rfl⟩
    · dsimp only at eq
      rw [State.session_set_of_ne i.other_ne] at eq
      obtain ⟨q, sent, rfl⟩ := shows.pending i.other later eq
      exact ⟨q, (update_of_ne i.other_ne ..).trans sent, rfl⟩
  · rcases i.eq_or_eq_other j with rfl | rfl
    · dsimp only at mem
      rw [State.session_set_of_ne j.other_ne] at mem
      obtain ⟨q, f, sent, -⟩ := shows.pushes j push mem
      rw [once] at sent
      cases sent
    · dsimp only at mem
      rw [Side.other_other, State.session_set_self] at mem
      obtain ⟨q, f, sent, rfl, there⟩ := shows.pushes i.other push (by rwa [Side.other_other])
      have elsewhere : q ≠ r := by
        rintro rfl
        exact fits.alone i q differs same sent
      exact ⟨q, f, (update_of_ne i.other_ne ..).trans sent, rfl,
        (update_of_ne elsewhere ..).trans there⟩

/-- A push is handled. -/
theorem Shows.deliver (shows : Shows sc s) (fits : Fits K p before sc) (inv : Inv K s)
    (apart : ∀ c d, K c → K d → fnv1a c = fnv1a d → c.length = d.length → c = d) {stamp : Stamp}
    (accepted : Accepted K s (.deliver i stamp)) (keepable : Keepable s (.deliver i stamp))
    (stepped : step s (.deliver i stamp) = some s') :
    ∃ sc', Next p before x sc (.deliver i stamp) sc' ∧ Shows sc' s' := by
  simp only [step] at stepped
  split at stepped <;> cases stepped
  rename_i push pushes idle queued
  have mine := inv.session i
  have runs := shows.runs i
  have call := mine.call_idle fun n here waiting => by cases idle.symm.trans waiting
  have first : push ∈ (s.session i).pushes := queued ▸ List.mem_cons_self
  have valid := mine.names push first
  have tail : ∀ other ∈ pushes, other ∈ (s.session i).pushes := fun other mem =>
    queued ▸ List.mem_cons_of_mem _ mem
  obtain ⟨r, file, sent, rfl, there⟩ := shows.pushes i.other push (by rwa [Side.other_other])
  simp only [Accepted, Keepable, queued] at accepted keepable
  obtain ⟨hashed, vacant⟩ := keepable
  have known := inv.files r _ ((shows.server r).trans there)
  obtain ⟨old, version⟩ := fits.version i r
  have decides := runs.unsynced_iff idle apart mine.files version (fits.known i r) known hashed
  simp only [handlePush, show isValidPath r = true from valid, if_true]
  cases changed : (s.session i).dir.unsynced r (file.info r) with
  | false =>
    rw [changed] at decides
    refine ⟨_, .replaced i stamp r sent ?_, ?_⟩
    · by_contra neither
      obtain ⟨notSaved, notThere⟩ := not_or.mp neither
      have present : sc.now i r ≠ none := fun none' =>
        notSaved (none'.trans (fits.gone i r none').symm)
      exact Bool.false_ne_true (decides.mpr ⟨present, there ▸ notThere, notSaved⟩)
    · rw [there]
      exact shows.set (runs.replaced idle call accepted changed _ _) (fun _ => id)
        fun _ => .inl ∘ tail _
  | true =>
    obtain ⟨q, copy, distinct, free, after⟩ :=
      runs.kept idle call valid accepted changed vacant
        (copyEvents (s.session i).dir stamp (.file r file) ++ (s.session i).events) pushes
    refine ⟨_, .kept i stamp r q sent (decides.mp changed).2.2 copy distinct free, ?_⟩
    rw [there]
    exact shows.set after (fun _ => id) fun _ => .inl ∘ tail _

theorem Shows.step (shows : Shows sc s) (fits : Fits K p before sc) (inv : Inv K s)
    (apart : ∀ c d, K c → K d → fnv1a c = fnv1a d → c.length = d.length → c = d)
    (accepted : Accepted K s label) (edits : Edits p (before p) (fun i => (x i).content) s label)
    (onTop : OnTopOfBase s label) (keepable : Keepable s label)
    (stepped : Sessions.step s label = some s') :
    ∃ sc', Next p before x sc label sc' ∧ Shows sc' s' := by
  cases label with
  | edit i name file =>
    obtain ⟨rfl, content, old⟩ := edits
    rw [(shows.runs i).content] at old
    simp only [Sessions.step] at stepped
    split at stepped <;> cases stepped
    rename_i ok
    have edited := (shows.runs i).edited (fits.untouched i old)
      ((s.session i).dir.tree.put name file).1 (y := (x i).content)
      (fun q other => by rw [FileTree.file?_put ok, if_neg other])
      (by rw [FileTree.file?_put ok, if_pos rfl, Option.map_some, content])
      (name :: (s.session i).events)
    have set := shows.set edited (fun _ => id) fun _ => .inl
    rw [update_eq_self] at set
    exact ⟨_, .edited i name file old, set⟩
  | erase i name => exact edits.elim
  | begin i name =>
    simp only [Sessions.step] at stepped
    split at stepped <;> cases stepped
    rename_i idle
    exact ⟨sc, .same _ (fun _ _ _ edit => by cases edit),
      shows.same ((shows.runs i).begin (inv.session i) idle accepted (fits.gone i name) _)
        (fun _ => id) fun _ => .inl⟩
  | send i =>
    simp only [Sessions.step] at stepped
    split at stepped
    · rename_i name here changed
      split at stepped <;> cases stepped
      swap
      · -- a file that was found changed is there, as nothing is removed
        rename_i gone
        have none' : sc.now i name = none := by
          rw [← (shows.runs i).content, SyncDir.content?, gone]
          rfl
        exact absurd ((fits.gone i name none').trans none'.symm)
          ((shows.runs i).changed _ _ changed)
      rename_i file present
      exact ⟨sc, .same _ (fun _ _ _ edit => by cases edit),
        shows.same ((shows.runs i).send changed present) (fun _ => id) fun _ => .inl⟩
    · rename_i name missing
      exact absurd missing ((shows.runs i).present name)
    · cases stepped
  | receive i =>
    simp only [Sessions.step] at stepped
    split at stepped <;> cases stepped
    rename_i request sent _
    exact ⟨sc, .same _ (fun _ _ _ edit => by cases edit),
      shows.same ((shows.runs i).receive sent) (fun _ => id) fun _ => .inl⟩
  | commit i => exact shows.commit fits inv apart accepted onTop stepped
  | answer i =>
    simp only [Sessions.step] at stepped
    split at stepped <;> cases stepped
    rename_i ok decided
    exact ⟨sc, .same _ (fun _ _ _ edit => by cases edit),
      shows.same ((shows.runs i).answer decided) (fun _ => id) fun _ => .inl⟩
  | push i =>
    simp only [Sessions.step] at stepped
    split at stepped <;> cases stepped
    rename_i toPush pending _
    obtain ⟨r, sent, rfl⟩ := shows.pending i toPush pending
    have cleared := shows.same (i := i) (c := { s.session i with pending := none })
      ⟨(shows.runs i).content, (shows.runs i).told, (shows.runs i).present, (shows.runs i).changed,
        (shows.runs i).asked⟩ (fun toPush sent => by cases sent) fun _ => .inl
    have theirs := shows.runs i.other
    rw [← State.session_set_of_ne (s := s) (c := { s.session i with pending := none })
      i.other_ne] at theirs
    refine ⟨sc, .same _ (fun _ _ _ edit => by cases edit), cleared.same
      ⟨theirs.content, theirs.told, theirs.present, theirs.changed, theirs.asked⟩ (fun _ => id)
      fun push mem => ?_⟩
    rcases List.mem_append.mp mem with old | new
    · exact .inl old
    · unfold pushed at new
      cases present : s.server.tree.file? r with
      | none =>
        simp only [State.set, present] at new
        cases new
      | some file =>
        simp only [State.set, present] at new
        cases List.mem_singleton.mp new
        refine .inr ⟨r, file, by rwa [Side.other_other], rfl, ?_⟩
        rw [← shows.server, State.content?, present, Option.map_some]
  | finish i =>
    simp only [Sessions.step] at stepped
    split at stepped <;> cases stepped
    rename_i name here ok waiting answered
    exact ⟨sc, .same _ (fun _ _ _ edit => by cases edit),
      shows.same ((shows.runs i).finish waiting answered) (fun _ => id) fun _ => .inl⟩
  | deliver i stamp => exact shows.deliver fits inv apart accepted keepable stepped

end BothSessions

/-! ## The story -/

section Story

variable (p : Bytes) (before : Bytes → Option Bytes) (x : Side → File)

/-- The old contents and the edit of one session. -/
def withEdit (i : Side) : Bytes → Option Bytes := update before p (some (x i).content)

/-- The edit of `w` at the path, and the other one at its conflicted copy. -/
def withCopy (w : Side) (q : Bytes) : Bytes → Option Bytes :=
  update (withEdit p before x w) q (some (x w.other).content)

/-- Where the two edits are, `edited` saying which are made. -/
inductive Plot (edited : Side → Bool) (sc : Scene) : Prop
  /-- Neither edit is committed. -/
  | apart (server : sc.server = before) (saved : ∀ i, sc.saved i = before)
      (now : ∀ i, sc.now i = if edited i then withEdit p before x i else before)
      (sent : ∀ i, sc.sent i = none)
  /-- The edit of `w` is, and the other session does not know. -/
  | first (w : Side) (made : edited w = true) (server : sc.server = withEdit p before x w)
      (mine : sc.saved w = withEdit p before x w ∧ sc.now w = withEdit p before x w)
      (theirs : sc.saved w.other = before ∧
        sc.now w.other = if edited w.other then withEdit p before x w.other else before)
      (sent : sc.sent w = some p ∧ sc.sent w.other = none)
  /-- The other session got it before it made an edit. -/
  | told (w : Side) (made : edited w = true ∧ edited w.other = false)
      (server : sc.server = withEdit p before x w)
      (views : ∀ i, sc.saved i = withEdit p before x w ∧ sc.now i = withEdit p before x w)
      (sent : sc.sent w = some p ∧ sc.sent w.other = none)
  /-- The other session got it and keeps its own edit as a conflicted copy. -/
  | copied (w : Side) (q : Bytes) (made : edited w = true) (copy : IsCopyOf p q) (distinct : q ≠ p)
      (free : before q = none) (server : sc.server = withEdit p before x w)
      (mine : sc.saved w = withEdit p before x w ∧ sc.now w = withEdit p before x w)
      (theirs : sc.saved w.other = withEdit p before x w ∧ sc.now w.other = withCopy p before x w q)
      (sent : sc.sent w = some p ∧ sc.sent w.other = none)
  /-- The conflicted copy is committed. -/
  | stored (w : Side) (q : Bytes) (made : edited w = true) (copy : IsCopyOf p q) (distinct : q ≠ p)
      (server : sc.server = withCopy p before x w q)
      (mine : sc.saved w = sc.now w ∧
        (sc.now w = withEdit p before x w ∧ before q = none ∨ sc.now w = withCopy p before x w q))
      (theirs : sc.saved w.other = withCopy p before x w q ∧
        sc.now w.other = withCopy p before x w q)
      (sent : sc.sent w = some p ∧ sc.sent w.other = some q)

/-- What is true of every version in the story. -/
theorem version_cases {P : Bytes → Option Bytes → Prop} (old : ∀ r, P r (before r))
    (new : ∀ r i, P r (some (x i).content)) (i : Side) (q : Bytes) :
    (∀ r, P r (withEdit p before x i r)) ∧ ∀ r, P r (withCopy p before x i q r) := by
  have edit : ∀ r, P r (withEdit p before x i r) := by
    intro r
    rw [withEdit, update_apply]
    split
    · exact new r i
    · exact old r
  refine ⟨edit, fun r => ?_⟩
  rw [withCopy, update_apply]
  split
  · exact new r i.other
  · exact edit r

variable {p before x} {K : Bytes → Prop} {edited : Side → Bool} {sc sc' : Scene} {label : Label}

@[simp] theorem withEdit_self (i : Side) : withEdit p before x i p = some (x i).content :=
  update_self ..

theorem withEdit_of_ne {r : Bytes} (other : r ≠ p) (i : Side) :
    withEdit p before x i r = before r :=
  update_of_ne other ..

@[simp] theorem withCopy_self (w : Side) (q : Bytes) :
    withCopy p before x w q q = some (x w.other).content := update_self ..

theorem withCopy_of_ne {r q : Bytes} (other : r ≠ q) (w : Side) :
    withCopy p before x w q r = withEdit p before x w r := update_of_ne other ..

theorem Plot.saved_cases (plot : Plot p before x edited sc) (i : Side) :
    sc.saved i = before ∨ ∃ w q, sc.saved i = withEdit p before x w ∨
      sc.saved i = withCopy p before x w q := by
  cases plot with
  | apart _ saved => exact .inl (saved i)
  | first w _ _ mine theirs =>
    rcases w.eq_or_eq_other i with rfl | rfl
    · exact .inr ⟨_, p, .inl mine.1⟩
    · exact .inl theirs.1
  | told w _ _ views => exact .inr ⟨w, p, .inl (views i).1⟩
  | copied w q _ _ _ _ _ mine theirs =>
    rcases w.eq_or_eq_other i with rfl | rfl
    · exact .inr ⟨_, q, .inl mine.1⟩
    · exact .inr ⟨_, q, .inl theirs.1⟩
  | stored w q _ _ _ _ mine theirs =>
    rcases w.eq_or_eq_other i with rfl | rfl
    · rcases mine.2 with ⟨edit, -⟩ | copy
      · exact .inr ⟨_, q, .inl (mine.1.trans edit)⟩
      · exact .inr ⟨_, q, .inr (mine.1.trans copy)⟩
    · exact .inr ⟨_, q, .inr theirs.1⟩

/-- What a session has and did not save is its edit, at the path on top of the
old version, or at a conflicted copy. -/
theorem Plot.unsaved (plot : Plot p before x edited sc) {i : Side} {r : Bytes}
    (differs : sc.saved i r ≠ sc.now i r) :
    sc.now i r = some (x i).content ∧ sc.sent i = none ∧
      (r = p ∧ sc.saved i p = before p ∧
        (sc.sent i.other = none ∨ sc.server p = some (x i.other).content) ∨
      r ≠ p ∧ sc.sent i.other = some p) := by
  have made : ∀ (edit : Bool), before r ≠ (if edit then withEdit p before x i else before) r →
      (if edit then withEdit p before x i else before) r = some (x i).content ∧ r = p := by
    intro edit unlike
    cases edit with
    | false => exact absurd rfl unlike
    | true =>
      rw [if_pos rfl] at unlike ⊢
      by_cases here : r = p
      · subst r
        exact ⟨withEdit_self i, rfl⟩
      · exact absurd (withEdit_of_ne here i).symm unlike
  cases plot with
  | apart _ saved now sent =>
    rw [saved, now] at differs
    obtain ⟨has, rfl⟩ := made _ differs
    exact ⟨(congrFun (now i) r).trans has, sent i, .inl ⟨rfl, congrFun (saved i) r, .inl (sent _)⟩⟩
  | first w _ server mine theirs sent =>
    rcases w.eq_or_eq_other i with rfl | rfl
    · rw [mine.1, mine.2] at differs
      exact absurd rfl differs
    · rw [theirs.1, theirs.2] at differs
      obtain ⟨has, rfl⟩ := made _ differs
      refine ⟨(congrFun theirs.2 r).trans has, sent.2, .inl ⟨rfl, congrFun theirs.1 r, .inr ?_⟩⟩
      rw [server, withEdit_self, Side.other_other]
  | told w _ _ views =>
    rw [(views i).1, (views i).2] at differs
    exact absurd rfl differs
  | copied w q _ _ distinct _ server mine theirs sent =>
    rcases w.eq_or_eq_other i with rfl | rfl
    · rw [mine.1, mine.2] at differs
      exact absurd rfl differs
    · rw [theirs.1, theirs.2] at differs
      have copy : r = q := by
        by_contra other
        exact differs (withCopy_of_ne other w).symm
      subst r
      exact ⟨(congrFun theirs.2 q).trans (withCopy_self w q), sent.2, .inr ⟨distinct, by
        rw [Side.other_other, sent.1]⟩⟩
  | stored w q _ _ _ _ mine theirs =>
    rcases w.eq_or_eq_other i with rfl | rfl
    · rw [mine.1] at differs
      exact absurd rfl differs
    · rw [theirs.1, theirs.2] at differs
      exact absurd rfl differs

theorem Plot.fits (plot : Plot p before x edited sc) (new : ∀ i, some (x i).content ≠ before p)
    (files : ∀ r, ∃ old : Option File, before r = old.map File.content)
    (known : ∀ r y, before r = some y → K y) (knownNew : ∀ i, K (x i).content) :
    Fits K p before sc := by
  have versions : ∀ i r, (∃ old : Option File, sc.saved i r = old.map File.content) ∧
      ∀ y, sc.saved i r = some y → K y := by
    intro i
    have cases := version_cases p before x
      (P := fun _ version => (∃ old : Option File, version = old.map File.content) ∧
        ∀ y, version = some y → K y)
      (fun r => ⟨files r, known r⟩)
      fun r i => ⟨⟨some (x i), rfl⟩, fun y same => Option.some.inj same ▸ knownNew i⟩
    rcases plot.saved_cases i with old | ⟨w, q, edit | copy⟩
    · exact fun r => old ▸ ⟨files r, known r⟩
    · exact edit ▸ (cases w q).1
    · exact copy ▸ (cases w q).2
  refine ⟨fun i r => (versions i r).1, fun i r => (versions i r).2, fun i old => ?_,
    fun i r gone => ?_, fun i r differs => (plot.unsaved differs).2.1,
      fun i r differs same sent => ?_⟩
  · by_contra differs
    exact new i ((plot.unsaved differs).1.symm.trans old)
  · by_contra present
    have has := (plot.unsaved (i := i) (r := r) fun same => present (same.trans gone)).1
    rw [gone] at has
    cases has
  · obtain ⟨-, -, ⟨rfl, old, unsent | theirs⟩ | ⟨other, committed⟩⟩ := plot.unsaved differs
    · rw [unsent] at sent
      cases sent
    · exact new i.other (theirs.symm.trans (same.symm.trans old))
    · exact other (Option.some.inj (sent.symm.trans committed))

/-- The edits made after a step. -/
def made (edited : Side → Bool) : Label → Side → Bool
  | .edit i _ _ => update edited i true
  | _ => edited

/-- An edit is made in a session that has the old version. -/
theorem Plot.edit (plot : Plot p before x edited sc) (new : ∀ i, some (x i).content ≠ before p)
    {i : Side} (old : sc.now i p = before p) :
    Plot p before x (update edited i true)
      { sc with now := update sc.now i (update (sc.now i) p (some (x i).content)) } := by
  have unmade : ∀ {now : Bytes → Option Bytes}, sc.now i = now → now p ≠ some (x i).content := by
    rintro _ rfl has
    exact new i (has.symm.trans old)
  have unlike : ∀ {now : Bytes → Option Bytes} {w : Side}, sc.now i = now →
      now p ≠ some (x w).content := by
    rintro _ w rfl has
    exact new w (has.symm.trans old)
  cases plot with
  | apart server saved now sent =>
    refine .apart server saved (fun j => ?_) sent
    by_cases here : j = i
    · subst j
      cases edit : edited i with
      | true => exact absurd (withEdit_self i) (unmade (by rw [now, edit, if_pos rfl]))
      | false =>
        simp only [update_self, now, edit, Bool.false_eq_true, if_false, if_true]
        rfl
    · dsimp only
      rw [update_of_ne here, update_of_ne here]
      exact now j
  | first w made server mine theirs sent =>
    rcases w.eq_or_eq_other i with rfl | rfl
    · exact absurd (withEdit_self i) (unmade mine.2)
    · cases edit : edited w.other with
      | true => exact absurd (withEdit_self w.other) (unmade (by rw [theirs.2, edit, if_pos rfl]))
      | false =>
        have now := theirs.2
        rw [edit, if_neg Bool.false_ne_true] at now
        refine .first w ((update_of_ne w.other_ne.symm ..).trans made) server
          ⟨mine.1, (update_of_ne w.other_ne.symm ..).trans mine.2⟩ ⟨theirs.1, ?_⟩ sent
        simp only [update_self, now, if_true]
        rfl
  | told w _ _ views => exact absurd (withEdit_self w) (unlike (views i).2)
  | copied w q _ _ distinct _ _ mine theirs =>
    rcases w.eq_or_eq_other i with rfl | rfl
    · exact absurd (withEdit_self i) (unlike mine.2)
    · exact absurd ((withCopy_of_ne distinct.symm w).trans (withEdit_self w)) (unlike theirs.2)
  | stored w q _ _ distinct _ mine theirs =>
    rcases w.eq_or_eq_other i with rfl | rfl
    · rcases mine.2 with ⟨edit, -⟩ | copy
      · exact absurd (withEdit_self i) (unlike edit)
      · exact absurd ((withCopy_of_ne distinct.symm i).trans (withEdit_self i)) (unlike copy)
    · exact absurd ((withCopy_of_ne distinct.symm w).trans (withEdit_self w)) (unlike theirs.2)

/-- A version is committed on top of the one the server has. -/
theorem Plot.commit (plot : Plot p before x edited sc) (new : ∀ i, some (x i).content ≠ before p)
    {i : Side} {r : Bytes} (differs : sc.saved i r ≠ sc.now i r)
    (onTop : sc.saved i r = sc.server r) :
    Plot p before x edited
      { sc with server := update sc.server r (sc.now i r)
                saved := update sc.saved i (update (sc.saved i) r (sc.now i r))
                sent := update sc.sent i (some r) } := by
  obtain ⟨has, -, at_⟩ := plot.unsaved differs
  cases plot with
  | apart server saved now sent =>
    rcases at_ with ⟨rfl, -⟩ | ⟨-, committed⟩
    · cases edit : edited i with
      | false =>
        rw [saved, now, edit] at differs
        exact absurd rfl differs
      | true =>
        have mine := now i
        rw [edit, if_pos rfl] at mine
        refine .first i edit ?_ ⟨?_, mine⟩ ⟨?_, now _⟩ ⟨update_self .., ?_⟩
        · rw [server, has]
          rfl
        · dsimp only
          rw [update_self, saved, has]
          rfl
        · exact (update_of_ne i.other_ne ..).trans (saved _)
        · exact (update_of_ne i.other_ne ..).trans (sent _)
    · rw [sent] at committed
      cases committed
  | first w _ server mine theirs sent =>
    rcases w.eq_or_eq_other i with rfl | rfl
    · rw [mine.1, mine.2] at differs
      exact absurd rfl differs
    · rcases at_ with ⟨rfl, -⟩ | ⟨other, -⟩
      · rw [theirs.1, server, withEdit_self] at onTop
        exact absurd onTop.symm (new w)
      · rw [theirs.1, theirs.2] at differs
        refine absurd ?_ differs
        split
        · exact (withEdit_of_ne other _).symm
        · rfl
  | told w _ _ views =>
    rw [(views i).1, (views i).2] at differs
    exact absurd rfl differs
  | copied w q made copy distinct free server mine theirs sent =>
    rcases w.eq_or_eq_other i with rfl | rfl
    · rw [mine.1, mine.2] at differs
      exact absurd rfl differs
    · have same : r = q := by
        by_contra other
        rw [theirs.1, theirs.2] at differs
        exact differs (withCopy_of_ne other w).symm
      subst r
      refine .stored w q made copy distinct ?_ ⟨?_, .inl ⟨mine.2, free⟩⟩ ⟨?_, theirs.2⟩
        ⟨?_, update_self ..⟩
      · rw [server, has]
        rfl
      · exact (update_of_ne w.other_ne.symm ..).trans (mine.1.trans mine.2.symm)
      · dsimp only
        rw [update_self, theirs.1, has]
        rfl
      · exact (update_of_ne w.other_ne.symm ..).trans sent.1
  | stored w q _ _ _ _ mine theirs =>
    rcases w.eq_or_eq_other i with rfl | rfl
    · rw [mine.1] at differs
      exact absurd rfl differs
    · rw [theirs.1, theirs.2] at differs
      exact absurd rfl differs

/-- What arrives again changes nothing. -/
theorem Scene.replaced_eq {i : Side} {r : Bytes} (saved : sc.saved i r = sc.server r)
    (now : sc.now i r = sc.server r) :
    { sc with saved := update sc.saved i (update (sc.saved i) r (sc.server r))
              now := update sc.now i (update (sc.now i) r (sc.server r)) } = sc := by
  have keepSaved : update (sc.saved i) r (sc.server r) = sc.saved i := by
    rw [← saved, update_eq_self]
  have keepNow : update (sc.now i) r (sc.server r) = sc.now i := by
    rw [← now, update_eq_self]
  rw [keepSaved, keepNow, update_eq_self, update_eq_self]

/-- A session without unsaved changes takes what the server has. -/
theorem Plot.replace (plot : Plot p before x edited sc) (new : ∀ i, some (x i).content ≠ before p)
    (unlike : ∀ i, (x i.other).content ≠ (x i).content) {i : Side} {r : Bytes}
    (sent : sc.sent i.other = some r) (old : sc.now i r = sc.saved i r ∨ sc.now i r = sc.server r) :
    Plot p before x edited
      { sc with saved := update sc.saved i (update (sc.saved i) r (sc.server r))
                now := update sc.now i (update (sc.now i) r (sc.server r)) } := by
  have again : Plot p before x edited sc := plot
  cases plot with
  | apart _ _ _ unsent =>
    rw [unsent] at sent
    cases sent
  | first w made server mine theirs committed =>
    rcases w.eq_or_eq_other i with rfl | rfl
    · rw [committed.2] at sent
      cases sent
    · rw [Side.other_other, committed.1] at sent
      obtain rfl := Option.some.inj sent
      rw [theirs.1, theirs.2, server] at old
      cases edit : edited w.other with
      | true =>
        rw [edit, if_pos rfl, withEdit_self, withEdit_self] at old
        rcases old with same | same
        · exact absurd same (new _)
        · exact absurd (Option.some.inj same) (unlike w)
      | false =>
        have now := theirs.2
        rw [edit, if_neg Bool.false_ne_true] at now
        refine .told w ⟨made, edit⟩ server (fun j => ?_) committed
        rcases w.eq_or_eq_other j with rfl | rfl
        · exact ⟨(update_of_ne j.other_ne.symm ..).trans mine.1,
            (update_of_ne j.other_ne.symm ..).trans mine.2⟩
        · simp only [update_self, theirs.1, now, server, withEdit_self]
          exact ⟨rfl, rfl⟩
  | told w made server views committed =>
    rcases w.eq_or_eq_other i with rfl | rfl
    · rw [committed.2] at sent
      cases sent
    · rw [Scene.replaced_eq (by rw [(views _).1, server]) (by rw [(views _).2, server])]
      exact again
  | copied w q made copy distinct free server mine theirs committed =>
    rcases w.eq_or_eq_other i with rfl | rfl
    · rw [committed.2] at sent
      cases sent
    · rw [Side.other_other, committed.1] at sent
      obtain rfl := Option.some.inj sent
      rw [Scene.replaced_eq (by rw [theirs.1, server])
        (by rw [theirs.2, server, withCopy_of_ne distinct.symm])]
      exact again
  | stored w q made copy distinct server mine theirs committed =>
    rcases w.eq_or_eq_other i with rfl | rfl
    · rw [committed.2] at sent
      obtain rfl := Option.some.inj sent
      rcases mine.2 with ⟨edit, free⟩ | has
      · refine .stored i q made copy distinct server ⟨?_, .inr ?_⟩
          ⟨(update_of_ne i.other_ne ..).trans theirs.1, (update_of_ne i.other_ne ..).trans theirs.2⟩
          committed
        · dsimp only
          rw [update_self, update_self, mine.1]
        · dsimp only
          rw [update_self, edit, server, withCopy_self]
          rfl
      · rw [Scene.replaced_eq (by rw [mine.1, has, server]) (by rw [has, server])]
        exact again
    · rw [Scene.replaced_eq (by rw [theirs.1, server]) (by rw [theirs.2, server])]
      exact again

/-- A session with an unsaved edit keeps it. -/
theorem Plot.keep (plot : Plot p before x edited sc) {i : Side} {r q : Bytes}
    (sent : sc.sent i.other = some r) (unsaved : sc.now i r ≠ sc.saved i r) (copy : IsCopyOf r q)
    (distinct : q ≠ r) (free : sc.now i q = none) :
    Plot p before x edited
      { sc with saved := update sc.saved i (update (sc.saved i) r (sc.server r))
                now := update sc.now i
                  (update (update (sc.now i) r (sc.server r)) q (sc.now i r)) } := by
  cases plot with
  | apart _ _ _ unsent =>
    rw [unsent] at sent
    cases sent
  | first w made server mine theirs committed =>
    rcases w.eq_or_eq_other i with rfl | rfl
    · rw [committed.2] at sent
      cases sent
    · rw [Side.other_other, committed.1] at sent
      obtain rfl := Option.some.inj sent
      cases edit : edited w.other with
      | false =>
        rw [theirs.1, theirs.2, edit] at unsaved
        exact absurd rfl unsaved
      | true =>
        have now := theirs.2
        rw [edit, if_pos rfl] at now
        rw [now, withEdit_of_ne distinct] at free
        refine .copied w q made copy distinct free server
          ⟨(update_of_ne w.other_ne.symm ..).trans mine.1,
            (update_of_ne w.other_ne.symm ..).trans mine.2⟩
          ⟨?_, ?_⟩ committed
        · dsimp only
          rw [update_self, theirs.1, server, withEdit_self]
          rfl
        · dsimp only
          rw [update_self, now, server, withEdit_self, withEdit_self, withCopy, withEdit, withEdit,
            update_idem]
  | told w _ _ views =>
    rw [(views i).1, (views i).2] at unsaved
    exact absurd rfl unsaved
  | copied w q' _ _ distinct' _ _ mine theirs committed =>
    rcases w.eq_or_eq_other i with rfl | rfl
    · rw [mine.1, mine.2] at unsaved
      exact absurd rfl unsaved
    · rw [Side.other_other, committed.1] at sent
      obtain rfl := Option.some.inj sent
      rw [theirs.1, theirs.2, withCopy_of_ne distinct'.symm] at unsaved
      exact absurd rfl unsaved
  | stored w q' _ _ _ _ mine theirs =>
    rcases w.eq_or_eq_other i with rfl | rfl
    · rw [mine.1] at unsaved
      exact absurd rfl unsaved
    · rw [theirs.1, theirs.2] at unsaved
      exact absurd rfl unsaved

theorem Plot.next (plot : Plot p before x edited sc) (new : ∀ i, some (x i).content ≠ before p)
    (unlike : ∀ i, (x i.other).content ≠ (x i).content) (next : Next p before x sc label sc') :
    Plot p before x (made edited label) sc' := by
  cases next with
  | same label noEdit =>
    cases label with
    | edit i name file => exact absurd rfl (noEdit i name file)
    | erase | begin | send | receive | commit | answer | push | finish | deliver => exact plot
  | edited i name file old => exact plot.edit new old
  | committed i r differs onTop => exact plot.commit new differs onTop
  | replaced i stamp r sent old => exact plot.replace new unlike sent old
  | kept i stamp r q sent unsaved copy distinct free =>
    exact plot.keep sent unsaved copy distinct free

end Story

/-! ## Every run -/

/-- Two edits of `p`, each committed on top of the version its session last
synced, and nothing refused. -/
def Careful (K : Bytes → Prop) (p : Bytes) (v : Option Bytes) (x : Side → File) (s : State)
    (label : Label) : Prop :=
  Accepted K s label ∧ Edits p v (fun i => (x i).content) s label ∧ Keepable s label ∧
    OnTopOfBase s label

section Runs

variable {K : Bytes → Prop} {p : Bytes} {before : Bytes → Option Bytes} {x : Side → File}
  {edited : Side → Bool} {s s' : State}

/-- The story goes on, and every edit of the run is made. -/
theorem story_run {labels : List Label} {sc : Scene}
    (apart : ∀ c d, K c → K d → fnv1a c = fnv1a d → c.length = d.length → c = d)
    (new : ∀ i, some (x i).content ≠ before p) (unlike : ∀ i, (x i.other).content ≠ (x i).content)
    (files : ∀ r, ∃ old : Option File, before r = old.map File.content)
    (known : ∀ r y, before r = some y → K y) (knownNew : ∀ i, K (x i).content)
    (inv : Inv K s) (shows : Shows sc s) (plot : Plot p before x edited sc)
    (careful : Meets step (Careful K p (before p) x) s labels) (ran : run step s labels = some s') :
    Inv K s' ∧ ∃ sc' edited', Shows sc' s' ∧ Plot p before x edited' sc' ∧ ∀ i,
      edited i = true ∨ (∃ name file, .edit i name file ∈ labels) → edited' i = true := by
  induction labels generalizing s sc edited with
  | nil =>
    cases ran
    refine ⟨inv, sc, edited, shows, plot, fun i => ?_⟩
    rintro (already | ⟨name, file, mem⟩)
    · exact already
    · cases mem
  | cons label labels ih =>
    obtain ⟨t, stepped, rest⟩ := run_cons_eq_some.mp ran
    obtain ⟨accepted, edits, keepable, onTop⟩ := careful.head
    have fits := plot.fits new files known knownNew
    have inTurn := shows.inTurn fits inv apart onTop
    obtain ⟨sc', next, shows'⟩ := shows.step fits inv apart accepted edits onTop keepable stepped
    obtain ⟨inv', sc'', edited', shows'', plot'', all⟩ :=
      ih (inv.step ⟨accepted, inTurn⟩ stepped) shows' (plot.next new unlike next)
        (careful.tail stepped) rest
    refine ⟨inv', sc'', edited', shows'', plot'', fun i => ?_⟩
    have kept : edited i = true → made edited label i = true := by
      intro already
      cases label with
      | edit j name file =>
        by_cases here : i = j
        · subst j
          exact update_self ..
        · exact (update_of_ne here ..).trans already
      | erase | begin | send | receive | commit | answer | push | finish | deliver => exact already
    rintro (already | ⟨name, file, mem⟩)
    · exact all i (.inl (kept already))
    · rcases List.mem_cons.mp mem with rfl | later
      · exact all i (.inl (update_self ..))
      · exact all i (.inr ⟨name, file, later⟩)

/-- Both edits, when nothing is under way. -/
theorem Plot.end {sc : Scene} (plot : Plot p before x edited sc) (shows : Shows sc s)
    (all : ∀ i, edited i = true) (unlike : ∀ i, (x i.other).content ≠ (x i).content)
    (converged : Converged s) :
    ∃ w q, IsCopyOf p q ∧ q ≠ p ∧ s.content? p = some (x w).content ∧
      s.content? q = some (x w.other).content := by
  have same : ∀ i r, sc.now i r = sc.server r := by
    intro i r
    rw [← (shows.runs i).content, ← shows.server]
    exact converged i r
  cases plot with
  | apart _ _ now _ =>
    have here := (same .a p).trans (same .b p).symm
    rw [now, now, all, all, if_pos rfl, if_pos rfl, withEdit_self, withEdit_self] at here
    exact absurd (Option.some.inj here).symm (unlike .a)
  | first w _ server _ theirs _ =>
    have here := same w.other p
    rw [theirs.2, all, if_pos rfl, server, withEdit_self, withEdit_self] at here
    exact absurd (Option.some.inj here) (unlike w)
  | told w made =>
    exact absurd ((all w.other).symm.trans made.2) (by decide)
  | copied w q _ _ distinct free server _ theirs _ =>
    have here := same w.other q
    rw [theirs.2, server, withCopy_self, withEdit_of_ne distinct, free] at here
    cases here
  | stored w q _ copy distinct server _ _ _ =>
    refine ⟨w, q, copy, distinct, ?_, ?_⟩
    · rw [shows.server, server, withCopy_of_ne distinct.symm, withEdit_self]
    · rw [shows.server, server, withCopy_self]

end Runs

/-- One session runs `reconcile`. -/
def State.reconcile (s : State) (i : Side) (listed : Exchange) (outcome : Bytes → Outcome) :
    State :=
  let sides := (SisOp.reconcile ⟨(s.session i).dir, s.server⟩ listed outcome).1
  { s.set i { s.session i with dir := sides.dir } with server := sides.server }

/-- Reconciling in sync changes no file. -/
theorem InSync.reconcile {K : Bytes → Prop} {s : State} (sync : InSync K s) (i : Side)
    (listed : Exchange) (outcome : Bytes → Outcome) :
    (s.reconcile i listed outcome).server = s.server := by
  refine (reconcile_of_agree outcome listed sync.names (fun p f info present entry _ _ => ?_)
    fun p => sync.local_ i p).2
  have saved := sync.base i p
  rw [← sync.local_ i, SyncDir.content?] at saved
  dsimp only at present entry
  rw [present, entry] at saved
  exact saved.1

theorem InSync.reconcile_both {K : Bytes → Prop} {s : State} (sync : InSync K s) (i : Side)
    (listed : Side → Exchange) (outcome : Side → Bytes → Outcome) :
    ((s.reconcile i (listed i) (outcome i)).reconcile i.other (listed i.other)
      (outcome i.other)).server = s.server := by
  have first := sync.reconcile i (listed i) (outcome i)
  have other : (s.reconcile i (listed i) (outcome i)).session i.other = s.session i.other :=
    State.session_set_of_ne i.other_ne
  have second := sync.reconcile i.other (listed i.other) (outcome i.other)
  unfold State.reconcile at second ⊢
  dsimp only at second ⊢
  rw [State.reconcile] at first other
  dsimp only at first other
  rw [other, first]
  exact second

/-- **Neither edit is lost.** Two sessions in sync edit the same file, with
different new contents. In every run in which each upload is committed while the
server still has the version its session last synced, and nothing is refused:
once everything is delivered and processed and both have run reconcile, the
server has one content at the path and the other at a conflicted-copy name. -/
theorem both_kept {K : Bytes → Prop} {s₀ s : State} {labels : List Label} {p : Bytes}
    {x : Side → File}
    (apart : ∀ c d, K c → K d → fnv1a c = fnv1a d → c.length = d.length → c = d)
    (start : InSync K s₀) (known : ∀ i, K (x i).content)
    (new : ∀ i, some (x i).content ≠ s₀.content? p) (unlike : (x .a).content ≠ (x .b).content)
    (careful : Meets step (Careful K p (s₀.content? p) x) s₀ labels)
    (edits : ∀ i, ∃ file, .edit i p file ∈ labels) (ran : run step s₀ labels = some s)
    (quiet : Quiescent s) (i : Side) (listed : Side → Exchange) (outcome : Side → Bytes → Outcome) :
    let final := (s.reconcile i (listed i) (outcome i)).reconcile i.other (listed i.other)
      (outcome i.other)
    ∃ w q, IsCopyOf p q ∧ q ≠ p ∧ final.content? p = some (x w).content ∧
      final.content? q = some (x w.other).content := by
  have unlike : ∀ i : Side, (x i.other).content ≠ (x i).content := by
    intro i
    cases i with
    | a => exact unlike.symm
    | b => exact unlike
  have inv := start.inv
  have opening : Shows ⟨s₀.content?, fun _ => s₀.content?, fun _ => s₀.content?,
    fun _ => none⟩ s₀ :=
    { server := fun _ => rfl
      runs := fun i =>
        { content := start.local_ i
          told := fun r => by
            simp only [Session.settled, start.worker]
            exact start.base i r
          present := fun r missing => by cases (start.worker i).symm.trans missing
          changed := fun r here working => by cases (start.worker i).symm.trans working
          asked := fun request asked => by rw [start.call] at asked; cases asked }
      pending := fun i toPush sent => by cases (start.pending i).symm.trans sent
      pushes := fun i push mem => by
        rw [start.pushes] at mem
        cases mem }
  have plot : Plot p s₀.content? x (fun _ => false)
      ⟨s₀.content?, fun _ => s₀.content?, fun _ => s₀.content?, fun _ => none⟩ :=
    .apart rfl (fun _ => rfl) (fun _ => (if_neg Bool.false_ne_true).symm) fun _ => rfl
  obtain ⟨inv, sc, edited, shows, plot, all⟩ := story_run apart new unlike (fun r => ⟨_, rfl⟩)
    start.files known inv opening plot careful ran
  have sync := inv.inSync apart quiet
  obtain ⟨w, q, copy, distinct, here, there⟩ := plot.end shows
    (fun i => all i (.inr ⟨p, edits i⟩)) unlike (inv.converged apart quiet)
  rw [State.content?, ← sync.reconcile_both i listed outcome] at here there
  exact ⟨w, q, copy, distinct, here, there⟩

/-! ## Uploads that cross, and uploads in turn -/

section Examples

/-- The new contents of the file `x`. -/
def edits : Side → File
  | .a => hereOne
  | .b => thereTwo

/-- Both edit `x`, and the second upload is committed before the first is pushed. -/
def crossing : List Label :=
  [.edit .a (bytes "x") hereOne, .edit .b (bytes "x") thereTwo,
    .begin .a (bytes "x"), .send .a, .receive .a, .begin .b (bytes "x"), .send .b, .receive .b,
    .commit .a, .answer .a, .commit .b, .answer .b, .push .a, .push .b, .finish .a, .finish .b,
    .deliver .a noon, .deliver .b noon]

/-- The first upload is pushed before the other session looks at its edit. -/
def inTurn : List Label :=
  [.edit .a (bytes "x") hereOne, .edit .b (bytes "x") thereTwo] ++ syncChange .a (bytes "x") ++
    [.deliver .b noon, .begin .b (bytes "x")] ++
    syncChange .b (bytes "x (conflicted copy 2024-05-01 12.00.00)") ++ [.deliver .a noon]

private theorem apart_bytes : ∀ c d : Bytes, c ∈ [[0], [1], [2]] → d ∈ [[0], [1], [2]] →
    fnv1a c = fnv1a d → c.length = d.length → c = d := by
  have all : ∀ c ∈ ([[0], [1], [2]] : List Bytes), ∀ d ∈ ([[0], [1], [2]] : List Bytes),
      fnv1a c = fnv1a d → c = d := by decide +kernel
  exact fun c d hc hd same _ => all c hc d hd same

private theorem inSync_createX : ∃ s₀, run step noFiles (createX 0) = some s₀ ∧
    InSync (· ∈ [[0], [1], [2]]) s₀ := by
  have reached : (run step noFiles (createX 0)).any (fun s => decide (Quiescent s)) = true := by
    decide +kernel
  obtain ⟨s₀, ran, quiet⟩ := (Option.any_eq_true _ _).mp reached
  exact ⟨s₀, ran, inSync_of_run apart_bytes (by decide +kernel) ran (of_decide_eq_true quiet)⟩

/-- Uploads that cross lose an edit: the second replaces the first on the
server, and the push of the second replaces it in the session that made it. -/
theorem edit_lost_of_crossing :
    ¬∀ (K : Bytes → Prop) (s₀ s : State) (labels : List Label) (p : Bytes) (x : Side → File),
      (∀ c d, K c → K d → fnv1a c = fnv1a d → c.length = d.length → c = d) → InSync K s₀ →
      (∀ i, K (x i).content) → (∀ i, some (x i).content ≠ s₀.content? p) →
      (x .a).content ≠ (x .b).content →
      Meets step (fun s label => Accepted K s label ∧
        Edits p (s₀.content? p) (fun i => (x i).content) s label ∧ Keepable s label) s₀ labels →
      (∀ i, ∃ file, .edit i p file ∈ labels) → run step s₀ labels = some s → Quiescent s →
      ∀ (i : Side) (listed : Side → Exchange) (outcome : Side → Bytes → Outcome),
        let final := (s.reconcile i (listed i) (outcome i)).reconcile i.other (listed i.other)
          (outcome i.other)
        ∃ w q, IsCopyOf p q ∧ q ≠ p ∧ final.content? p = some (x w).content ∧
          final.content? q = some (x w.other).content := by
  intro claim
  obtain ⟨s₀, created, sync⟩ := inSync_createX
  have meets : ((run step noFiles (createX 0)).any fun s₀ => decide
      (s₀.content? (bytes "x") = some [0] ∧ Meets step (fun s label =>
        Accepted (· ∈ [[0], [1], [2]]) s label ∧
        Edits (bytes "x") (some [0]) (fun i => (edits i).content) s label ∧ Keepable s label)
          s₀ crossing)) = true := by decide +kernel
  have ends : ((run step noFiles (createX 0)).any fun s₀ => (run step s₀ crossing).any fun s =>
      decide (Quiescent s) && s.server.tree.files.all fun entry => entry.2.content ≠ [1]) =
        true := by
    decide +kernel
  rw [created, Option.any_some] at meets ends
  obtain ⟨version, meets⟩ := of_decide_eq_true meets
  obtain ⟨s, ran, holds⟩ := (Option.any_eq_true _ _).mp ends
  obtain ⟨quiet, lost⟩ := (Bool.and_eq_true ..).mp holds
  have quiet := of_decide_eq_true quiet
  have absent : ∀ path, s.content? path ≠ some [1] := by
    intro path present
    obtain ⟨f, file, content⟩ := Option.map_eq_some_iff.mp present
    exact of_decide_eq_true (List.all_eq_true.mp lost _ (FileTree.mem_files_iff.mpr file)) content
  have whole : run step noFiles (createX 0 ++ crossing) = some s := by
    rw [run_append, created, Option.bind_some, ran]
  have reconciled := (inSync_of_run apart_bytes (by decide +kernel) whole quiet).reconcile_both .a
    (fun _ => .answered) fun _ _ => ⟨.answered, noon⟩
  obtain ⟨w, q, -, -, here, there⟩ := claim (· ∈ [[0], [1], [2]]) s₀ s crossing (bytes "x") edits
    apart_bytes sync (by decide) (by rw [version]; decide) (by decide)
      (by rw [version]; exact meets)
    (fun i => ⟨edits i, by cases i <;> simp [crossing, edits]⟩) ran quiet .a
    (fun _ => .answered) (fun _ _ => ⟨.answered, noon⟩)
  rw [State.content?, reconciled] at here there
  cases w with
  | a => exact absent _ here
  | b => exact absent _ there

/-- One upload at a time: the second session keeps its edit as a conflicted copy
and uploads that. -/
theorem both_kept_in_turn :
    ∃ s, (run step noFiles (createX 0 ++ inTurn)) = some s ∧
      ∃ w q, IsCopyOf (bytes "x") q ∧ q ≠ bytes "x" ∧
        ((s.reconcile .a .answered fun _ => ⟨.answered, noon⟩).reconcile .b .answered
          fun _ => ⟨.answered, noon⟩).content? (bytes "x") = some (edits w).content ∧
        ((s.reconcile .a .answered fun _ => ⟨.answered, noon⟩).reconcile .b .answered
          fun _ => ⟨.answered, noon⟩).content? q = some (edits w.other).content := by
  obtain ⟨s₀, created, sync⟩ := inSync_createX
  have careful : ((run step noFiles (createX 0)).any fun s₀ => decide
      (s₀.content? (bytes "x") = some [0] ∧ Meets step (fun s label =>
        Accepted (· ∈ [[0], [1], [2]]) s label ∧
        Edits (bytes "x") (some [0]) (fun i => (edits i).content) s label ∧ Keepable s label ∧
          OnTopOfBase s label) s₀ inTurn)) = true := by decide +kernel
  have ends : ((run step noFiles (createX 0)).any fun s₀ => (run step s₀ inTurn).any fun s =>
      decide (Quiescent s)) = true := by decide +kernel
  rw [created, Option.any_some] at careful ends
  obtain ⟨version, careful⟩ := of_decide_eq_true careful
  obtain ⟨s, ran, quiet⟩ := (Option.any_eq_true _ _).mp ends
  refine ⟨s, by rw [run_append, created, Option.bind_some, ran], ?_⟩
  exact both_kept (x := edits) apart_bytes sync (by decide)
    (by rw [version]; decide) (by decide) (by rw [version]; exact careful)
    (fun i => ⟨edits i, by cases i <;> simp [inTurn, edits]⟩) ran (of_decide_eq_true quiet) .a
    (fun _ => .answered) (fun _ _ => ⟨.answered, noon⟩)

end Examples

end SisOp.Sessions
