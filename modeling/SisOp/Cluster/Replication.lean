import SisOp.Cluster.Hashes
import SisOp.Cluster.State
import SisOp.Lib.Run
import Mathlib.Data.List.Nodup
import Mathlib.Logic.Function.Basic

/-!
# Replication under a stable primary

While one server stays primary, its threads change the store and bring it to the
backups: a client's upload or delete, under the write mutex, is applied and then
sent over every link; `attach_replica`, under the write mutex too, resyncs one
backup and puts its link in `links_`; heartbeats and membership broadcasts use
the links without that mutex, and whoever sees an exchange fail drops the link.
An exchange that failed may still reach the backup, late, unless a newer link
was attached there; nothing more is ever answered over its link.

Main result: `linked_backups_in_sync`, whenever the write mutex is free every
backup with a link in `links_` has the primary's (user, path) → content map.
-/

namespace SisOp

open Lib Std Function

/-! ## What a change does to the files -/

namespace Change

/-- Changes that touch no file. -/
def isAccount : Change → Bool
  | .account _ _ => true
  | _ => false

/-- The message can be written: its strings fit their fields. -/
def writable : Change → Bool
  | .account _ record => decide (record.length ≤ 0xFFFF)
  | _ => true

/-- The contents it brings are in `K`. -/
def Within (K : Bytes → Prop) : Change → Prop
  | .put _ _ file => K file.content
  | _ => True

end Change

namespace Storage

/-- The store after a change, and whether a backup answers it with `Ok`. -/
def change (s : Storage) : Change → Storage × Bool
  | .put user name file =>
    if isValidUsername user && isValidPath name then s.commit user name file else (s, false)
  | .delete user name =>
    (if isValidUsername user && isValidPath name then (s.remove user name).1 else s, true)
  | .account user record => (s, isValidUsername user && isValidRecord record)

/-- The store after changes that were all answered with `Ok`. -/
def changeAll (s : Storage) : List Change → Option Storage
  | [] => some s
  | c :: cs => if (s.change c).2 then (s.change c).1.changeAll cs else none

/-- Equal (user, path) → content maps. -/
def SameFiles (s t : Storage) : Prop := ∀ user path, s.content? user path = t.content? user path

/-- Every content is in `K`. -/
def Within (K : Bytes → Prop) (s : Storage) : Prop :=
  ∀ user path content, s.content? user path = some content → K content

variable {s : Storage} {c : Change} {K : Bytes → Prop}

theorem change_of_isAccount (account : c.isAccount = true) : (s.change c).1 = s := by
  cases c with
  | account => rfl
  | put | delete => cases account

theorem Valid.change (valid : s.Valid) (c : Change) : (s.change c).1.Valid := by
  cases c with
  | put user name file =>
    simp only [Storage.change]
    split
    · rename_i names
      rw [Bool.and_eq_true] at names
      exact valid.commit names.1 names.2
    · exact valid
  | delete user name =>
    simp only [Storage.change]
    split
    · exact valid.remove
    · exact valid
  | account => exact valid

theorem Within.commit {user name : Bytes} {file : File} (within : s.Within K)
    (content : K file.content) : (s.commit user name file).1.Within K := by
  intro u p c present
  cases ok : (s.commit user name file).2 with
  | true =>
    rw [content?_commit ok] at present
    split at present
    · cases present
      exact content
    · exact within u p c present
  | false =>
    rw [content?_commit_of_fail ok] at present
    exact within u p c present

theorem Within.remove {user name : Bytes} (within : s.Within K) :
    (s.remove user name).1.Within K := by
  intro u p c present
  rw [content?_remove] at present
  split at present
  · cases present
  · exact within u p c present

theorem Within.change (within : s.Within K) (content : c.Within K) : (s.change c).1.Within K := by
  cases c with
  | put user name file =>
    simp only [Storage.change]
    split
    · exact within.commit content
    · exact within
  | delete user name =>
    simp only [Storage.change]
    split
    · exact within.remove
    · exact within
  | account => exact within

theorem changeAll_append (cs ds : List Change) :
    s.changeAll (cs ++ ds) = (s.changeAll cs).bind fun t => t.changeAll ds := by
  induction cs generalizing s with
  | nil => rfl
  | cons c cs ih =>
    rw [List.cons_append, changeAll, changeAll]
    split
    · exact ih
    · rfl

theorem changeAll_accounts {cs : List Change} (accounts : ∀ c ∈ cs, c.isAccount = true)
    {t : Storage} (applied : s.changeAll cs = some t) : t = s := by
  induction cs with
  | nil => exact (Option.some.inj applied).symm
  | cons c cs ih =>
    rw [changeAll, change_of_isAccount (accounts c List.mem_cons_self)] at applied
    split at applied
    · exact ih (fun c mem => accounts c (List.mem_cons_of_mem _ mem)) applied
    · cases applied

end Storage

/-- What a backup does with a change depends, for its files, on its files. -/
theorem Replica.apply_storage (b : Replica) (c : Change) :
    (b.apply c).1.storage = (b.storage.change c).1 ∧ (b.apply c).2 = (b.storage.change c).2 := by
  cases c with
  | put user name file =>
    simp only [Replica.apply, Storage.change]
    split <;> exact ⟨rfl, rfl⟩
  | delete user name =>
    simp only [Replica.apply, Storage.change]
    split <;> exact ⟨rfl, rfl⟩
  | account user record =>
    simp only [Replica.apply, Storage.change]
    by_cases userValid : isValidUsername user = true
    · by_cases recordValid : isValidRecord record = true
      · simp [userValid, recordValid]
      · simp [userValid, recordValid]
    · simp [userValid]

/-! ## What a resync sends -/

/-- The exchanges of `attach_replica` after the manifest, in order; `locals` is what
it listed before. -/
def resyncChanges (primary : Replica) (locals : List (FileKey × FileInfo))
    (accounts : List (Bytes × Bytes)) (files : List (FileKey × FileInfo)) : List Change :=
  (accountsToSend primary (Map.ofPairs accounts)).map (fun account =>
    Change.account account.1 account.2) ++
  ((filesToPut (Map.ofPairs locals) (Map.ofPairs files)).filterMap (fun entry =>
    (primary.storage.file? entry.1.user entry.1.name).map (Change.put entry.1.user entry.1.name)) ++
  (filesToDelete (Map.ofPairs locals) (Map.ofPairs files)).map fun entry =>
    Change.delete entry.1.user entry.1.name)

section Resync

variable {primary b : Replica}

/-- Exchanges that act on the backup as changes do. -/
theorem sendAll_of_changeAll {α : Type} (send : Replica → α → Replica × Option Bool)
    {toChange : α → Option Change} {list : List α}
    (agree : ∀ a ∈ list, ∃ c, toChange a = some c ∧ ∀ b : Replica,
      send b a = ((b.apply c).1, some (b.apply c).2)) (b : Replica) {s : Storage}
    (applied : b.storage.changeAll (list.filterMap toChange) = some s) :
    (sendAll send b list).2 = some true ∧ (sendAll send b list).1.storage = s := by
  induction list generalizing b with
  | nil => exact ⟨rfl, Option.some.inj applied⟩
  | cons a list ih =>
    obtain ⟨c, isChange, sent⟩ := agree a List.mem_cons_self
    obtain ⟨storage, reply⟩ := b.apply_storage c
    rw [List.filterMap_cons_some isChange, Storage.changeAll] at applied
    split at applied
    · rename_i ok
      rw [sendAll, sent, reply, ok]
      exact ih (fun a mem => agree a (List.mem_cons_of_mem _ mem)) _ (storage ▸ applied)
    · cases applied

/-- A resync whose exchanges are all answered with `Ok` leaves the primary's
files, up to contents that look the same. -/
theorem changeAll_resync (pv : primary.storage.Valid) (bv : b.storage.Valid) {s : Storage}
    (applied : b.storage.changeAll
      (resyncChanges primary primary.storage.entries b.accounts.all b.storage.entries) = some s)
        (user name : Bytes) : s.file? user name = resynced primary b user name := by
  rw [resyncChanges, Storage.changeAll_append, Option.bind_eq_some_iff] at applied
  obtain ⟨_, accounts, applied⟩ := applied
  obtain rfl := Storage.changeAll_accounts (fun c mem => by
    obtain ⟨account, -, rfl⟩ := List.mem_map.mp mem
    rfl) accounts
  rw [Storage.changeAll_append, Option.bind_eq_some_iff] at applied
  obtain ⟨t, puts, deletes⟩ := applied
  have mine : ∀ entry ∈ filesToPut primary.storage.fileMap b.storage.fileMap,
      primary.storage.file? entry.1.user entry.1.name ≠ none := by
    intro entry mem
    obtain ⟨f, present, -⟩ := (mem_filesToPut_iff pv bv).mp mem
    rw [present]
    nofun
  have theirs : ∀ entry ∈ filesToDelete primary.storage.fileMap b.storage.fileMap,
      isValidUsername entry.1.user = true ∧ isValidPath entry.1.name = true := by
    intro entry mem
    obtain ⟨g, present, -⟩ := (mem_filesToDelete_iff pv bv).mp mem
    have occupied : b.storage.file? entry.1.user entry.1.name ≠ none := by rw [present]; nofun
    exact ⟨bv.user _ (Storage.mem_userDirs_of_file? occupied), bv.path _ _ occupied⟩
  obtain ⟨putsOk, afterPuts⟩ := sendAll_of_changeAll
    (fun b entry => putOnLink primary b entry.1.user entry.1.name) (fun entry mem => by
      obtain ⟨f, present⟩ := Option.ne_none_iff_exists'.mp (mine entry mem)
      exact ⟨.put entry.1.user entry.1.name f, by rw [present]; rfl, fun b =>
        putOnLink_eq (pv.user _ (Storage.mem_userDirs_of_file? (mine entry mem)))
          (pv.path _ _ (mine entry mem)) present⟩) b puts
  rw [← List.filterMap_eq_map] at deletes
  obtain ⟨-, afterDeletes⟩ := sendAll_of_changeAll
    (fun b entry => deleteOnLink b entry.1.user entry.1.name) (fun entry mem =>
      ⟨_, rfl, fun b => deleteOnLink_eq (theirs entry mem).1 (theirs entry mem).2⟩)
    (sendAll (fun b entry => putOnLink primary b entry.1.user entry.1.name) b
      (filesToPut primary.storage.fileMap b.storage.fileMap)).1 (afterPuts ▸ deletes)
  rw [← afterDeletes, (sendAll_deletes _ _ theirs).2 ⟨user, name⟩,
    (sendAll_puts pv b _ mine).2 putsOk ⟨user, name⟩]
  exact resynced_eq pv bv ⟨user, name⟩

/-- Between equal stores a resync sends accounts only. -/
theorem isAccount_of_mem_resyncChanges (pv : primary.storage.Valid) (bv : b.storage.Valid)
    (same : b.storage.SameFiles primary.storage) {c : Change}
    (mem : c ∈ resyncChanges primary primary.storage.entries b.accounts.all b.storage.entries) :
    c.isAccount = true := by
  simp only [resyncChanges, List.mem_append, List.mem_map, List.mem_filterMap,
    Option.map_eq_some_iff] at mem
  rcases mem with ⟨account, -, rfl⟩ | ⟨entry, listed, f, present, rfl⟩ | ⟨entry, listed, rfl⟩
  · rfl
  · obtain ⟨f', present', -, differs⟩ := (mem_filesToPut_iff pv bv).mp listed
    have content := same entry.1.user entry.1.name
    rw [Storage.content?, Storage.content?, present', Option.map_some,
      Option.map_eq_some_iff] at content
    obtain ⟨g, there, equal⟩ := content
    exact absurd ⟨by rw [equal], by rw [equal]⟩ (differs g there)
  · obtain ⟨g, there, -, absent⟩ := (mem_filesToDelete_iff pv bv).mp listed
    have content := same entry.1.user entry.1.name
    rw [Storage.content?, Storage.content?, there, absent] at content
    cases content

/-- What a resync sends has contents of the primary. -/
theorem within_of_mem_resyncChanges {K : Bytes → Prop} (within : primary.storage.Within K)
    {locals : List (FileKey × FileInfo)} {accounts : List (Bytes × Bytes)}
    {files : List (FileKey × FileInfo)} {c : Change}
    (mem : c ∈ resyncChanges primary locals accounts files) : c.Within K := by
  simp only [resyncChanges, List.mem_append, List.mem_map, List.mem_filterMap,
    Option.map_eq_some_iff] at mem
  rcases mem with ⟨account, -, rfl⟩ | ⟨entry, -, f, present, rfl⟩ | ⟨entry, -, rfl⟩
  · trivial
  · exact within entry.1.user entry.1.name _ (by rw [Storage.content?, present, Option.map_some])
  · trivial

end Resync

namespace Replication

/-! ## The primary and its backups -/

/-- A connection to a backup, numbered. -/
structure Link (β : Type) where
  member : ServerAddress
  conn : Nat
  backup : β

/-- What a thread without the write mutex sends over every link. -/
inductive Probe where
  | heartbeat
  | membership
  deriving DecidableEq

/-- What a thread of the primary still has to do to its links: the critical
sections and exchanges of `drop_link`, `broadcast_membership` and
`heartbeat_links`. -/
inductive Task (β : Type) where
  | drop (id : UInt32)
  | remove (id : UInt32) (link : Link β)
  | shut (link : Link β)
  | probe (kind : Probe)
  | probing (kind : Probe) (todo : List (Link β)) (failed : List UInt32)

/-- Where the thread that holds the write mutex is. -/
inductive Writer (β : Type) where
  | free
  | committed (change : Change)
  | replicating (change : Change) (todo : List (Link β)) (failed : List UInt32)
  | dropping (tasks : List (Task β))
  | connected (link : Link β) (locals : List (FileKey × FileInfo))
  | resyncing (link : Link β) (todo : List Change)
  | live (previous : Option (Link β))

/-- The stable primary, the backups, and what is under way between them. -/
structure State (β : Type) where
  cluster : Cluster (Link β)
  primary : Replica
  backup : β → Replica
  hashes : Hashes
  backupHashes : β → Hashes
  /-- The connection of the last `ReplicaAttach` a backup handled. -/
  newest : β → Option Nat
  /-- Connections that are shut down, or on which an exchange failed. -/
  down : List Nat
  /-- What was sent in an exchange that failed and may still arrive; `none` is
  the `ReplicaAttach` itself. -/
  inFlight : List (Link β × Option Change)
  nextConn : Nat
  writer : Writer β
  threads : List (List (Task β))

/-- How an exchange ends: with an answer, without one, or, for a heartbeat, not
at all because the link is busy. -/
inductive Reply where
  | answered
  | lost
  | busy
  deriving DecidableEq

inductive Label (β : Type) where
  | upload (user name : Bytes) (file : File)
  | delete (user name : Bytes)
  | connect (member : ServerAddress) (backup : β)
  | writer (reply : Reply)
  | probe (kind : Probe)
  | thread (i : Nat) (reply : Reply)
  | addMember (member : ServerAddress)
  | removeMember (id : UInt32)
  | deliver (i : Nat)
  | closed (backup : β)
  | list (listing : Listing)
  | backupList (backup : β) (listing : Listing)

variable {β : Type}

namespace State

/-- `links_snapshot`. -/
def links (s : State β) : List (Link β) := s.cluster.links.toList.map Prod.snd

/-- The backup still serves this link. -/
def reaches (s : State β) (link : Link β) : Bool :=
  decide (s.newest link.backup = some link.conn ∧ link.conn ∉ s.down)

variable [DecidableEq β]

/-- The backup applies a change. -/
def applyOn (s : State β) (b : β) (change : Change) : State β :=
  { s with backup := update s.backup b ((s.backup b).apply change).1
           backupHashes :=
             update s.backupHashes b ((s.backupHashes b).forget (s.backup b).storage change) }

/-- The exchange failed: nothing more goes through on the link, and what was
sent may arrive later, unless the link had failed before. -/
def lose (s : State β) (link : Link β) (sent : Option Change) : State β :=
  { s with down := link.conn :: s.down
           inFlight :=
             if s.down.contains link.conn then s.inFlight else (link, sent) :: s.inFlight }

/-- `put_on_link` or `delete_on_link`: the state afterwards and what is returned. -/
def exchange (s : State β) (link : Link β) (change : Change) : Reply → Option (State β × Bool)
  | .answered =>
    if s.reaches link then
      some (s.applyOn link.backup change, ((s.backup link.backup).apply change).2)
    else none
  | .lost => some (s.lose link (some change), false)
  | .busy => none

/-- The files a backup lists for its manifest. -/
def listed (s : State β) (b : β) : List (FileKey × FileInfo) :=
  (s.backupHashes b).report (s.backup b).storage.entries

/-- The first part of `handle_replica_attach` at the other end: a link attached
before is shut down, and the files are listed. -/
def attach (s : State β) (link : Link β) : State β :=
  { s with newest := update s.newest link.backup (some link.conn)
           down := (s.newest link.backup).toList ++ s.down
           backupHashes := update s.backupHashes link.backup
             ((s.backupHashes link.backup).keep (s.listed link.backup)) }

/-- `attach_replica` from the request to the manifest. -/
def requestManifest (s : State β) (link : Link β) (locals : List (FileKey × FileInfo))
    (reply : Reply) : Option (State β) :=
  match attachRequest s.cluster.self s.cluster.members with
  | none => some { s with writer := .free } -- the writer throws
  | some request =>
    if sendable request then
      match reply with
      | .answered =>
        match answerAttach (s.backup link.backup).accounts.all (s.listed link.backup) request with
        | none => some { s.attach link with writer := .free }
        | some manifest =>
          match readManifest.run manifest with
          | none => some { s.attach link with writer := .free }
          | some ((accounts, files), _) =>
            some { s.attach link with
              writer := .resyncing link (resyncChanges s.primary locals accounts files) }
      | .lost => some { s.lose link none with writer := .free }
      | .busy => none
    else some { s with writer := .free }

/-- One step of a thread with tasks, the first of which is `task`. -/
def stepTask (s : State β) (task : Task β) (rest : List (Task β)) (reply : Reply) :
    Option (State β × List (Task β)) :=
  match task with
  | .drop id =>
    match s.cluster.links[id]? with
    | none => some (s, rest)
    | some link => some ({ s with cluster := s.cluster.takeLink id }, .remove id link :: rest)
  | .remove id link => some ({ s with cluster := s.cluster.removeMember id }, .shut link :: rest)
  | .shut link => some ({ s with down := link.conn :: s.down }, .probe .membership :: rest)
  | .probe kind => some (s, .probing kind s.links [] :: rest)
  | .probing _ [] failed => some (s, failed.map .drop ++ rest)
  | .probing kind (link :: todo) failed =>
    match reply with
    | .answered => if s.reaches link then some (s, .probing kind todo failed :: rest) else none
    | .lost =>
      some ({ s with down := link.conn :: s.down },
        .probing kind todo (failed ++ [link.member.id]) :: rest)
    | .busy => if kind = .heartbeat then some (s, .probing kind todo failed :: rest) else none

/-- The thread that holds the write mutex goes on. -/
def stepWriter (s : State β) (reply : Reply) : Option (State β) :=
  match s.writer with
  | .free => none
  | .committed change => some { s with writer := .replicating change s.links [] }
  | .replicating change (link :: todo) failed =>
    (s.exchange link change reply).map fun (s, ok) =>
      { s with writer :=
          .replicating change todo (if ok then failed else failed ++ [link.member.id]) }
  | .replicating _ [] failed => some { s with writer := .dropping (failed.map .drop) }
  | .dropping (task :: rest) =>
    (s.stepTask task rest reply).map fun (s, tasks) => { s with writer := .dropping tasks }
  | .dropping [] => some { s with writer := .free }
  | .connected link locals => s.requestManifest link locals reply
  | .resyncing link (change :: todo) =>
    if change.writable then
      (s.exchange link change reply).map fun (s, ok) =>
        { s with writer := if ok then .resyncing link todo else .free }
    else some { s with writer := .free } -- the writer throws
  | .resyncing link [] =>
    some { s with cluster := s.cluster.setLink link.member.id link
                  writer := .live s.cluster.links[link.member.id]? }
  | .live previous =>
    some { s with down := (previous.map Link.conn).toList ++ s.down, writer := .free }

/-- Something sent in an exchange that failed arrives at last. -/
def deliver (s : State β) (i : Nat) : Option (State β) :=
  match s.inFlight[i]? with
  | none => none
  | some (link, sent) =>
    let s := { s with inFlight := s.inFlight.eraseIdx i }
    match sent with
    | none => some (s.attach link)
    | some change =>
      if s.newest link.backup = some link.conn then some (s.applyOn link.backup change) else some s

end State

def step [DecidableEq β] (s : State β) : Label β → Option (State β)
  | .upload user name file =>
    -- the session's user and the checked name
    if isValidUsername user && isValidPath name then
      match s.writer with
      | .free =>
        let committed := s.primary.storage.commit user name file
        some { s with primary := { s.primary with storage := committed.1 }
                      hashes := s.hashes.forget s.primary.storage (.put user name file)
                      writer := if committed.2 then .committed (.put user name file) else .free }
      | _ => none
    else none
  | .delete user name =>
    if isValidUsername user && isValidPath name then
      match s.writer with
      | .free =>
        let removed := s.primary.storage.remove user name
        some { s with primary := { s.primary with storage := removed.1 }
                      hashes := s.hashes.forget s.primary.storage (.delete user name)
                      writer := if removed.2 then .committed (.delete user name) else .free }
      | _ => none
    else none
  | .connect member backup =>
    match s.writer with
    | .free =>
      let locals := s.hashes.report s.primary.storage.entries
      some { s with writer := .connected ⟨member, s.nextConn, backup⟩ locals
                    hashes := s.hashes.keep locals
                    nextConn := s.nextConn + 1 }
    | _ => none
  | .writer reply => s.stepWriter reply
  | .probe kind => some { s with threads := [.probe kind] :: s.threads }
  | .thread i reply =>
    match s.threads[i]? with
    | some (task :: rest) =>
      (s.stepTask task rest reply).map fun (s, tasks) =>
        { s with threads := s.threads.set i tasks }
    | _ => none
  | .addMember member => some { s with cluster := s.cluster.addMember member }
  | .removeMember id => some { s with cluster := s.cluster.removeMember id }
  | .deliver i => s.deliver i
  | .closed backup => some { s with newest := update s.newest backup none }
  | .list listing =>
    (s.hashes.step s.primary.storage listing).map fun hashes => { s with hashes }
  | .backupList b listing =>
    ((s.backupHashes b).step (s.backup b).storage listing).map fun hashes =>
      { s with backupHashes := update s.backupHashes b hashes }

/-! ## The invariant -/

variable {K : Bytes → Prop} {s s' : State β}

/-- Whatever may still arrive at a backup touches no file. -/
def Clean (s : State β) (b : β) : Prop :=
  ∀ link change, (link, some change) ∈ s.inFlight → link.backup = b →
    s.newest b = some link.conn → change.isAccount = true

/-- Nothing that touches files is under way to the backup, and if it answers
these changes with `Ok` it has the primary's files. -/
structure OnCourse (s : State β) (b : β) (changes : List Change) : Prop where
  clean : Clean s b
  goal : ∀ t, (s.backup b).storage.changeAll changes = some t → t.SameFiles s.primary.storage

/-- Every backup with a link satisfies `p`. -/
def Linked (s : State β) (p : UInt32 → Link β → Prop) : Prop :=
  ∀ id link, s.cluster.links[id]? = some link → p id link

/-- What holds of the backups while the write mutex is where it is. -/
def WriterInv (K : Bytes → Prop) (s : State β) : Writer β → Prop
  | .free | .live _ => Linked s fun _ link => OnCourse s link.backup []
  | .connected link locals =>
    (Linked s fun _ l => OnCourse s l.backup [] ∧ l.conn ≠ link.conn) ∧
      link.conn < s.nextConn ∧
        (∀ l change, (l, some change) ∈ s.inFlight → l.conn ≠ link.conn) ∧
          locals = s.primary.storage.entries
  | .committed change =>
    change.Within K ∧ Linked s fun _ link => OnCourse s link.backup [change]
  | .replicating change todo failed =>
    change.Within K ∧ (∀ link ∈ todo, link.conn < s.nextConn) ∧ (todo.map Link.conn).Nodup ∧
      Linked s fun id link =>
        -- it was reached, or its link comes later or will be dropped
        (OnCourse s link.backup [] ∧
          ∀ l ∈ todo, l.backup = link.backup → s.reaches l = false) ∨
        (link ∈ todo ∨ id ∈ failed) ∧
          ∀ l ∈ todo, l.backup = link.backup → s.reaches l = true →
            OnCourse s link.backup [change]
  | .dropping tasks => Linked s fun id link => OnCourse s link.backup [] ∨ .drop id ∈ tasks
  | .resyncing link todo =>
    (∀ c ∈ todo, c.Within K) ∧ link.conn < s.nextConn ∧ OnCourse s link.backup todo ∧
      Linked s fun _ l => OnCourse s l.backup [] ∧ l.conn ≠ link.conn ∧
        (l.backup = link.backup → ∀ c ∈ todo, c.isAccount = true)

/-- What holds wherever the write mutex is. -/
structure Sound (K : Bytes → Prop) (s : State β) : Prop where
  primaryValid : s.primary.storage.Valid
  primaryWithin : s.primary.storage.Within K
  backupValid : ∀ b, (s.backup b).storage.Valid
  backupWithin : ∀ b, (s.backup b).storage.Within K
  sentWithin : ∀ link change, (link, some change) ∈ s.inFlight → change.Within K
  sentConn : ∀ link sent, (link, sent) ∈ s.inFlight → link.conn < s.nextConn
  linkConn : Linked s fun _ link => link.conn < s.nextConn
  keyed : Linked s fun id link => link.member.id = id
  apart : Linked s fun i k => Linked s fun j l => k.conn = l.conn → i = j
  /-- On a link whose `ReplicaAttach` may still arrive nothing else was sent. -/
  late : ∀ link, (link, none) ∈ s.inFlight → link.conn ∈ s.down ∧
    ∀ l change, (l, some change) ∈ s.inFlight → l.conn ≠ link.conn

structure Inv (K : Bytes → Prop) (s : State β) : Prop extends Sound K s where
  writer : WriterInv K s s.writer

/-- What the threads without the write mutex, and whatever arrives late, can do
to the state: links are dropped, connections fail, a backup is left by the link
it had, and it applies a change that was sent to it in an exchange that failed. -/
structure Quiet (s s' : State β) : Prop where
  primary : s'.primary = s.primary
  nextConn : s'.nextConn = s.nextConn
  links : Linked s' fun id link => s.cluster.links[id]? = some link
  down : ∀ conn ∈ s.down, conn ∈ s'.down
  sent : ∀ entry ∈ s'.inFlight, entry ∈ s.inFlight
  newest : ∀ b, s'.newest b = s.newest b ∨ s'.newest b = none ∨
    ∃ conn ∈ s'.down, s'.newest b = some conn ∧
      ∀ link change, (link, some change) ∈ s'.inFlight → link.conn ≠ conn
  backup : ∀ b, s'.backup b = s.backup b ∨ ∃ link change, (link, some change) ∈ s.inFlight ∧
    link.backup = b ∧ s.newest b = some link.conn ∧ s'.backup b = ((s.backup b).apply change).1

theorem Quiet.onCourse (quiet : Quiet s s') {b : β} {changes : List Change}
    (course : OnCourse s b changes) : OnCourse s' b changes where
  clean link change mem own here := by
    rcases quiet.newest b with same | gone | ⟨conn, -, arrived, unused⟩
    · exact course.clean link change (quiet.sent _ mem) own (same ▸ here)
    · rw [gone] at here
      cases here
    · rw [arrived] at here
      exact absurd (Option.some.inj here).symm (unused link change mem)
  goal t applied := by
    rw [quiet.primary]
    refine course.goal t ?_
    rcases quiet.backup b with same | ⟨link, change, mem, own, here, eq⟩
    · rw [← same]
      exact applied
    · have account := course.clean link change mem own here
      rw [eq, ((s.backup b).apply_storage change).1, Storage.change_of_isAccount account] at applied
      exact applied

/-- A link that is served now was served before. -/
theorem Quiet.reaches (quiet : Quiet s s') {link : Link β} (served : s'.reaches link = true) :
    s.reaches link = true := by
  obtain ⟨here, up⟩ := of_decide_eq_true served
  refine decide_eq_true ⟨?_, fun down => up (quiet.down _ down)⟩
  rcases quiet.newest link.backup with same | gone | ⟨conn, down, arrived, -⟩
  · exact same ▸ here
  · rw [gone] at here
    cases here
  · rw [arrived] at here
    exact absurd (Option.some.inj here ▸ down) up

theorem Quiet.writerInv (quiet : Quiet s s') {w : Writer β} (inv : WriterInv K s w) :
    WriterInv K s' w := by
  cases w with
  | free | live =>
    exact fun id link present => quiet.onCourse (inv id link (quiet.links id link present))
  | connected link locals =>
    obtain ⟨all, fresh, unused, own⟩ := inv
    exact ⟨fun id l present => (all id l (quiet.links id l present)).imp_left quiet.onCourse,
      quiet.nextConn ▸ fresh, fun l change mem => unused l change (quiet.sent _ mem),
      by rw [quiet.primary]; exact own⟩
  | committed change =>
    exact ⟨inv.1, fun id link present =>
      quiet.onCourse (inv.2 id link (quiet.links id link present))⟩
  | replicating change todo failed =>
    obtain ⟨within, fresh, nodup, all⟩ := inv
    refine ⟨within, fun link mem => quiet.nextConn ▸ fresh link mem, nodup,
      fun id link present => ?_⟩
    rcases all id link (quiet.links id link present) with ⟨done, unserved⟩ | ⟨pending, reach⟩
    · refine .inl ⟨quiet.onCourse done, fun l mem own => ?_⟩
      rw [← Bool.not_eq_true]
      intro served
      have before := unserved l mem own
      rw [quiet.reaches served] at before
      cases before
    · exact .inr ⟨pending, fun l mem own served =>
        quiet.onCourse (reach l mem own (quiet.reaches served))⟩
  | dropping tasks =>
    exact fun id link present =>
      (inv id link (quiet.links id link present)).imp_left quiet.onCourse
  | resyncing link todo =>
    obtain ⟨within, fresh, course, all⟩ := inv
    exact ⟨within, quiet.nextConn ▸ fresh, quiet.onCourse course, fun id l present =>
      (all id l (quiet.links id l present)).imp_left quiet.onCourse⟩

/-! ## Steps without the write mutex -/

section Quiet

theorem Quiet.refl (s : State β) : Quiet s s where
  primary := rfl
  nextConn := rfl
  links _ _ present := present
  down _ mem := mem
  sent _ mem := mem
  newest _ := .inl rfl
  backup _ := .inl rfl

theorem Quiet.cluster (s : State β) {cluster : Cluster (Link β)}
    (links : ∀ (id : UInt32) link, cluster.links[id]? = some link →
      s.cluster.links[id]? = some link) : Quiet s { s with cluster } :=
  { Quiet.refl s with links }

theorem Quiet.goesDown (s : State β) (conn : Nat) : Quiet s { s with down := conn :: s.down } :=
  { Quiet.refl s with
    down := fun _ mem => List.mem_cons_of_mem _ mem
    newest := fun _ => .inl rfl }

theorem getElem?_takeLink {c : Cluster (Link β)} {id i : UInt32} {link : Link β}
    (present : (c.takeLink id).links[i]? = some link) : c.links[i]? = some link ∧ i ≠ id := by
  simp only [Cluster.takeLink, Map.getElem?_erase] at present
  split at present
  · cases present
  · rename_i other
    exact ⟨present, other⟩

/-- A task drops links, and takes connections down. -/
theorem quiet_stepTask {task : Task β} {rest tasks : List (Task β)} {reply : Reply}
    (stepped : s.stepTask task rest reply = some (s', tasks)) :
    Quiet s s' ∧ s'.writer = s.writer ∧ s'.threads = s.threads := by
  cases task with
  | drop id =>
    simp only [State.stepTask] at stepped
    split at stepped <;> cases stepped
    · exact ⟨.refl s, rfl, rfl⟩
    · exact ⟨.cluster s fun i link present => (getElem?_takeLink present).1, rfl, rfl⟩
  | remove id link =>
    cases stepped
    exact ⟨.cluster s fun _ _ present => present, rfl, rfl⟩
  | shut link =>
    cases stepped
    exact ⟨.goesDown s _, rfl, rfl⟩
  | probe kind =>
    cases stepped
    exact ⟨.refl s, rfl, rfl⟩
  | probing kind todo failed =>
    cases todo with
    | nil =>
      cases stepped
      exact ⟨.refl s, rfl, rfl⟩
    | cons link todo =>
      cases reply with
      | answered =>
        simp only [State.stepTask] at stepped
        split at stepped <;> cases stepped
        exact ⟨.refl s, rfl, rfl⟩
      | lost =>
        cases stepped
        exact ⟨.goesDown s _, rfl, rfl⟩
      | busy =>
        simp only [State.stepTask] at stepped
        split at stepped <;> cases stepped
        exact ⟨.refl s, rfl, rfl⟩

variable [DecidableEq β]

theorem quiet_deliver {i : Nat}
    (late : ∀ link, (link, none) ∈ s.inFlight → link.conn ∈ s.down ∧
      ∀ l change, (l, some change) ∈ s.inFlight → l.conn ≠ link.conn)
    (stepped : s.deliver i = some s') : Quiet s s' ∧ s'.writer = s.writer := by
  unfold State.deliver at stepped
  split at stepped
  · cases stepped
  · rename_i link sent arriving
    have mem := List.mem_of_getElem? arriving
    have sentBefore : ∀ entry ∈ s.inFlight.eraseIdx i, entry ∈ s.inFlight :=
      fun _ => List.mem_of_mem_eraseIdx
    cases sent with
    | none =>
      cases stepped
      obtain ⟨down, unused⟩ := late link mem
      refine ⟨{ Quiet.refl s with
        sent := sentBefore
        down := fun conn mem => List.mem_append_right _ mem
        newest := fun b => ?_ }, rfl⟩
      by_cases here : b = link.backup
      · subst b
        exact .inr (.inr ⟨link.conn, List.mem_append_right _ down, update_self ..,
          fun l change mem => unused l change (sentBefore _ mem)⟩)
      · exact .inl (update_of_ne here ..)
    | some change =>
      dsimp only at stepped
      split at stepped <;> cases stepped
      · rename_i here
        refine ⟨{ Quiet.refl s with
          sent := sentBefore
          newest := fun _ => .inl rfl
          backup := fun b => ?_ }, rfl⟩
        by_cases own : b = link.backup
        · subst b
          exact .inr ⟨link, change, mem, rfl, here, update_self ..⟩
        · exact .inl (update_of_ne own ..)
      · exact ⟨{ Quiet.refl s with sent := sentBefore, newest := fun _ => .inl rfl }, rfl⟩

theorem quiet_closed (s : State β) (b : β) : Quiet s { s with newest := update s.newest b none } :=
  { Quiet.refl s with
    newest := fun b' => by
      by_cases here : b' = b
      · subst b'
        exact .inr (.inl (update_self ..))
      · exact .inl (update_of_ne here ..) }

end Quiet

theorem Sound.quiet (inv : Sound K s) (quiet : Quiet s s') : Sound K s' where
  primaryValid := quiet.primary ▸ inv.primaryValid
  primaryWithin := quiet.primary ▸ inv.primaryWithin
  backupValid b := by
    rcases quiet.backup b with same | ⟨link, change, mem, own, here, eq⟩
    · exact same ▸ inv.backupValid b
    · rw [eq, ((s.backup b).apply_storage change).1]
      exact (inv.backupValid b).change change
  backupWithin b := by
    rcases quiet.backup b with same | ⟨link, change, mem, own, here, eq⟩
    · exact same ▸ inv.backupWithin b
    · rw [eq, ((s.backup b).apply_storage change).1]
      exact (inv.backupWithin b).change (inv.sentWithin link change mem)
  sentWithin link change mem := inv.sentWithin link change (quiet.sent _ mem)
  sentConn link sent mem := quiet.nextConn ▸ inv.sentConn link sent (quiet.sent _ mem)
  linkConn id link present := quiet.nextConn ▸ inv.linkConn id link (quiet.links id link present)
  keyed id link present := inv.keyed id link (quiet.links id link present)
  apart i k here j l there := inv.apart i k (quiet.links i k here) j l (quiet.links j l there)
  late link mem :=
    ⟨quiet.down _ (inv.late link (quiet.sent _ mem)).1, fun l change mem' =>
      (inv.late link (quiet.sent _ mem)).2 l change (quiet.sent _ mem')⟩

theorem Inv.setWriter {w : Writer β} (sound : Sound K s) (inv : WriterInv K s w) :
    Inv K { s with writer := w } :=
  have quiet : Quiet s { s with writer := w } := { Quiet.refl s with newest := fun _ => .inl rfl }
  { sound.quiet quiet with writer := quiet.writerInv inv }

/-- Such a step keeps the invariant. -/
theorem Inv.quiet (inv : Inv K s) (quiet : Quiet s s') (writer : s'.writer = s.writer) :
    Inv K s' :=
  { inv.toSound.quiet quiet with writer := writer ▸ quiet.writerInv inv.writer }

/-! ## Exchanges of the thread with the write mutex -/

section Exchange

variable {b : β} {link : Link β} {change : Change} {changes : List Change}

theorem OnCourse.lose (course : OnCourse s b changes)
    (harmless : link.backup = b → s.reaches link = true → change.isAccount = true) :
    OnCourse (s.lose link (some change)) b changes where
  clean l c mem own here := by
    simp only [State.lose] at mem
    split at mem
    · exact course.clean l c mem own here
    · rename_i up
      rcases List.mem_cons.mp mem with new | mem
      · cases new
        exact harmless own (decide_eq_true ⟨own ▸ here, by simpa using up⟩)
      · exact course.clean l c mem own here
  goal := course.goal

theorem mem_inFlight_lose {sent : Option Change} {entry : Link β × Option Change}
    (mem : entry ∈ (s.lose link sent).inFlight) :
    entry ∈ s.inFlight ∨ entry = (link, sent) ∧ link.conn ∉ s.down := by
  simp only [State.lose] at mem
  split at mem
  · exact .inl mem
  · rename_i up
    rcases List.mem_cons.mp mem with new | mem
    · exact .inr ⟨new, by simpa using up⟩
    · exact .inl mem

theorem Sound.lose (sound : Sound K s) {sent : Option Change} (fresh : link.conn < s.nextConn)
    (within : ∀ c, sent = some c → c.Within K)
    (unused : sent = none → ∀ l c, (l, some c) ∈ s.inFlight → l.conn ≠ link.conn) :
    Sound K (s.lose link sent) :=
  { sound with
    sentWithin := fun l c mem => by
      rcases mem_inFlight_lose mem with old | ⟨new, -⟩
      · exact sound.sentWithin l c old
      · cases new
        exact within c rfl
    sentConn := fun l c mem => by
      rcases mem_inFlight_lose mem with old | ⟨new, -⟩
      · exact sound.sentConn l c old
      · cases new
        exact fresh
    late := fun l mem => by
      rcases mem_inFlight_lose mem with old | ⟨new, -⟩
      · obtain ⟨down, alone⟩ := sound.late l old
        refine ⟨List.mem_cons_of_mem _ down, fun l' c mem' => ?_⟩
        rcases mem_inFlight_lose mem' with old' | ⟨new', up⟩
        · exact alone l' c old'
        · cases new'
          exact fun same => up (same ▸ down)
      · cases new
        refine ⟨List.mem_cons_self, fun l' c mem' => ?_⟩
        rcases mem_inFlight_lose mem' with old' | ⟨new', -⟩
        · exact unused rfl l' c old'
        · cases new' }

variable [DecidableEq β]

@[simp] theorem State.backup_applyOn_self (s : State β) (b : β) (change : Change) :
    (s.applyOn b change).backup b = ((s.backup b).apply change).1 := update_self ..

theorem State.backup_applyOn_of_ne {b' : β} (other : b' ≠ b) :
    (s.applyOn b change).backup b' = s.backup b' := update_of_ne other ..

theorem exchange_cases {reply : Reply} {ok : Bool}
    (exchanged : s.exchange link change reply = some (s', ok)) :
    s.reaches link = true ∧ s' = s.applyOn link.backup change ∧
        ok = ((s.backup link.backup).apply change).2 ∨
      s' = s.lose link (some change) ∧ ok = false := by
  cases reply with
  | answered =>
    simp only [State.exchange] at exchanged
    split at exchanged <;> cases exchanged
    exact .inl ⟨‹_›, rfl, rfl⟩
  | lost =>
    cases exchanged
    exact .inr ⟨rfl, rfl⟩
  | busy => cases exchanged

theorem OnCourse.applyOn (course : OnCourse s b (change :: changes))
    (ok : ((s.backup b).apply change).2 = true) : OnCourse (s.applyOn b change) b changes where
  clean := course.clean
  goal t applied := by
    obtain ⟨storage, reply⟩ := (s.backup b).apply_storage change
    refine course.goal t ?_
    rw [Storage.changeAll, if_pos (reply ▸ ok), ← storage]
    rwa [State.backup_applyOn_self] at applied

theorem OnCourse.applyOn_account (course : OnCourse s b changes)
    (account : change.isAccount = true) : OnCourse (s.applyOn b change) b changes where
  clean := course.clean
  goal t applied := by
    refine course.goal t ?_
    rwa [State.backup_applyOn_self, ((s.backup b).apply_storage change).1,
      Storage.change_of_isAccount account] at applied

theorem OnCourse.applyOn_of_ne {own : β} (course : OnCourse s b changes) (other : b ≠ own) :
    OnCourse (s.applyOn own change) b changes where
  clean := course.clean
  goal t applied := by
    refine course.goal t ?_
    rwa [State.backup_applyOn_of_ne other] at applied

theorem Sound.applyOn (sound : Sound K s) (within : change.Within K) :
    Sound K (s.applyOn b change) :=
  { sound with
    backupValid := fun b' => by
      by_cases here : b' = b
      · subst b'
        rw [State.backup_applyOn_self, ((s.backup b).apply_storage change).1]
        exact (sound.backupValid b).change change
      · rw [State.backup_applyOn_of_ne here]
        exact sound.backupValid b'
    backupWithin := fun b' => by
      by_cases here : b' = b
      · subst b'
        rw [State.backup_applyOn_self, ((s.backup b).apply_storage change).1]
        exact (sound.backupWithin b).change within
      · rw [State.backup_applyOn_of_ne here]
        exact sound.backupWithin b' }

end Exchange

/-! ## The thread with the write mutex -/

section WriterSteps

variable {link : Link β} {change : Change} {todo : List (Link β)} {failed : List UInt32}

theorem mem_links : link ∈ s.links ↔ ∃ id : UInt32, s.cluster.links[id]? = some link := by
  simp only [State.links, List.mem_map, Prod.exists, Map.mem_toList_iff, exists_eq_right]

theorem nodup_links (apart : Linked s fun i k => Linked s fun j l => k.conn = l.conn → i = j) :
    (s.links.map Link.conn).Nodup := by
  have entries : s.cluster.links.toList.Nodup :=
    ExtTreeMap.distinct_keys_toList.imp fun {a b} other same =>
      other (Std.compare_eq_iff_eq.mpr (congrArg Prod.fst same))
  rw [State.links, List.map_map]
  refine List.Nodup.map_on ?_ entries
  rintro ⟨i, k⟩ here ⟨j, l⟩ there same
  have here := Map.mem_toList_iff.mp here
  have there := Map.mem_toList_iff.mp there
  obtain rfl := apart i k here j l there same
  rw [here] at there
  cases there
  rfl

/-- A committed upload: what was up to date needs the same change. -/
theorem OnCourse.commit {b : β} {user name : Bytes} (file : File)
    (names : (isValidUsername user && isValidPath name) = true) (course : OnCourse s b []) :
    let committed := s.primary.storage.commit user name file
    let s' := { s with
      primary := { s.primary with storage := committed.1 }
      hashes := s.hashes.forget s.primary.storage (.put user name file) }
    if committed.2 then OnCourse s' b [.put user name file] else OnCourse s' b [] := by
  dsimp only
  have same : (s.backup b).storage.SameFiles s.primary.storage := course.goal _ rfl
  cases ok : (s.primary.storage.commit user name file).2 with
  | true =>
    rw [if_pos rfl]
    refine ⟨course.clean, fun t applied => ?_⟩
    simp only [Storage.changeAll, Storage.change, if_pos names] at applied
    split at applied
    · rename_i stored
      cases applied
      intro u p
      rw [Storage.content?_commit stored, Storage.content?_commit ok, same u p]
    · cases applied
  | false =>
    rw [if_neg Bool.false_ne_true]
    refine ⟨course.clean, fun t applied => ?_⟩
    cases applied
    intro u p
    rw [Storage.content?_commit_of_fail ok, same u p]

theorem OnCourse.remove {b : β} {user name : Bytes}
    (names : (isValidUsername user && isValidPath name) = true) (course : OnCourse s b []) :
    let removed := s.primary.storage.remove user name
    let s' := { s with
      primary := { s.primary with storage := removed.1 }
      hashes := s.hashes.forget s.primary.storage (.delete user name) }
    if removed.2 then OnCourse s' b [.delete user name] else OnCourse s' b [] := by
  dsimp only
  have same : (s.backup b).storage.SameFiles s.primary.storage := course.goal _ rfl
  cases ok : (s.primary.storage.remove user name).2 with
  | true =>
    rw [if_pos rfl]
    refine ⟨course.clean, fun t applied => ?_⟩
    simp only [Storage.changeAll, Storage.change, if_pos names, if_true] at applied
    cases applied
    intro u p
    rw [Storage.content?_remove, Storage.content?_remove, same u p]
  | false =>
    rw [if_neg Bool.false_ne_true]
    refine ⟨course.clean, fun t applied => ?_⟩
    cases applied
    intro u p
    rw [Storage.content?, Storage.content?, Storage.file?_remove_of_fail ok]
    exact same u p

/-- The resynced backup's link goes live. -/
theorem Inv.goLive (inv : Inv K s) (writer : s.writer = .resyncing link []) :
    Inv K { s with cluster := s.cluster.setLink link.member.id link
                   writer := .live s.cluster.links[link.member.id]? } := by
  have held := inv.writer
  rw [writer] at held
  obtain ⟨-, fresh, course, all⟩ := held
  have split : ∀ (id : UInt32) l, (s.cluster.setLink link.member.id link).links[id]? = some l →
      l = link ∧ id = link.member.id ∨ s.cluster.links[id]? = some l ∧ id ≠ link.member.id := by
    intro id l present
    simp only [Cluster.setLink, Map.getElem?_insert] at present
    split at present
    · cases present
      exact .inl ⟨rfl, ‹_›⟩
    · exact .inr ⟨present, ‹_›⟩
  refine Inv.setWriter (s := { s with cluster := s.cluster.setLink link.member.id link })
    { inv.toSound with linkConn := ?_, keyed := ?_, apart := ?_ } ?_
  · intro id l present
    rcases split id l present with ⟨rfl, -⟩ | ⟨old, -⟩
    · exact fresh
    · exact inv.linkConn id l old
  · intro id l present
    rcases split id l present with ⟨rfl, same⟩ | ⟨old, -⟩
    · exact same.symm
    · exact inv.keyed id l old
  · intro i k here j l there same
    rcases split i k here with ⟨rfl, rfl⟩ | ⟨oldI, -⟩ <;>
      rcases split j l there with ⟨rfl, rfl⟩ | ⟨oldJ, -⟩
    · rfl
    · exact absurd same.symm (all j l oldJ).2.1
    · exact absurd same (all i k oldI).2.1
    · exact inv.apart i k oldI j l oldJ same
  · intro id l present
    rcases split id l present with ⟨rfl, -⟩ | ⟨old, -⟩
    · exact ⟨course.clean, course.goal⟩
    · exact ⟨(all id l old).1.clean, (all id l old).1.goal⟩

theorem Inv.stepTask {task : Task β} {rest tasks : List (Task β)} {reply : Reply} (inv : Inv K s)
    (writer : s.writer = .dropping (task :: rest))
    (stepped : s.stepTask task rest reply = some (s', tasks)) :
    Inv K { s' with writer := .dropping tasks } := by
  have held := inv.writer
  rw [writer] at held
  obtain ⟨quiet, -⟩ := quiet_stepTask stepped
  refine Inv.setWriter (inv.toSound.quiet quiet) fun id link present => ?_
  have before := quiet.links id link present
  refine (held id link before).imp quiet.onCourse fun mem => ?_
  -- the next task is done; every other drop stays
  rcases List.mem_cons.mp mem with here | later
  · subst task
    simp only [State.stepTask, before] at stepped
    cases stepped
    exact absurd rfl (getElem?_takeLink present).2
  · cases task with
    | drop id' =>
      simp only [State.stepTask] at stepped
      split at stepped <;> cases stepped
      · exact later
      · exact List.mem_cons_of_mem _ later
    | remove | shut | probe =>
      cases stepped
      exact List.mem_cons_of_mem _ later
    | probing kind todo failed =>
      cases todo with
      | nil =>
        cases stepped
        exact List.mem_append_right _ later
      | cons link todo =>
        cases reply with
        | answered | busy =>
          simp only [State.stepTask] at stepped
          split at stepped <;> cases stepped
          exact List.mem_cons_of_mem _ later
        | lost =>
          cases stepped
          exact List.mem_cons_of_mem _ later

variable [DecidableEq β]

/-- One exchange of `replicate_put` or `replicate_delete`: the backup is reached,
or its link is among those to drop. -/
theorem Inv.replicate {reply : Reply} {ok : Bool} (inv : Inv K s)
    (writer : s.writer = .replicating change (link :: todo) failed)
    (exchanged : s.exchange link change reply = some (s', ok)) :
    Inv K { s' with
      writer := .replicating change todo (if ok then failed else failed ++ [link.member.id]) } := by
  have held := inv.writer
  rw [writer] at held
  obtain ⟨within, fresh, nodup, all⟩ := held
  obtain ⟨notLater, nodupLater⟩ := List.nodup_cons.mp (List.map_cons ▸ nodup)
  have later : ∀ l ∈ todo, l ∈ link :: todo := fun l => List.mem_cons_of_mem link
  -- the backup of `link` serves no other link of the list
  have alone : ∀ l ∈ todo, l.backup = link.backup → s.reaches link = true →
      s.reaches l = false := by
    intro l mem own served
    rw [← Bool.not_eq_true]
    intro also
    have here := (of_decide_eq_true served).1
    have there := (of_decide_eq_true also).1
    rw [own, here] at there
    exact notLater (List.mem_map.mpr ⟨l, mem, (Option.some.inj there).symm⟩)
  have pendingLater : ∀ id l, s.cluster.links[id]? = some l → l ∈ link :: todo ∨ id ∈ failed →
      l ∈ todo ∨ id ∈ failed ++ [link.member.id] := by
    rintro id l present (mem | mem)
    · rcases List.mem_cons.mp mem with rfl | mem
      · exact .inr (List.mem_append_right _ (List.mem_singleton.mpr (inv.keyed id l present).symm))
      · exact .inl mem
    · exact .inr (List.mem_append_left _ mem)
  rcases exchange_cases exchanged with ⟨served, rfl, rfl⟩ | ⟨rfl, rfl⟩
  · refine Inv.setWriter (inv.toSound.applyOn within)
      ⟨within, fun l mem => fresh l (later l mem), nodupLater, fun id l present => ?_⟩
    by_cases own : l.backup = link.backup
    · rcases all id l present with ⟨-, unserved⟩ | ⟨pending, reach⟩
      · have not := unserved link List.mem_cons_self own.symm
        rw [served] at not
        cases not
      cases ok : ((s.backup link.backup).apply change).2 with
      | true =>
        have course := reach link List.mem_cons_self own.symm served
        rw [own] at course ⊢
        exact .inl ⟨course.applyOn ok, fun k mem own => alone k mem own served⟩
      | false =>
        refine .inr ⟨pendingLater id l present pending, fun k mem own' also => ?_⟩
        have not := alone k mem (own'.trans own) served
        rw [show s.reaches k = true from also] at not
        cases not
    · rcases all id l present with ⟨done, unserved⟩ | ⟨pending, reach⟩
      · exact .inl ⟨done.applyOn_of_ne own, fun k mem => unserved k (later k mem)⟩
      · refine .inr ⟨?_, fun k mem own' also =>
          (reach k (later k mem) own' also).applyOn_of_ne own⟩
        rcases pending with mem | mem
        · exact .inl ((List.mem_cons.mp mem).resolve_left fun same => own (same ▸ rfl))
        · split
          · exact .inr mem
          · exact .inr (List.mem_append_left _ mem)
  · have before : ∀ k, (s.lose link (some change)).reaches k = true → s.reaches k = true := by
      intro k served
      obtain ⟨here, up⟩ := of_decide_eq_true served
      exact decide_eq_true ⟨here, fun down => up (List.mem_cons_of_mem _ down)⟩
    refine Inv.setWriter (inv.toSound.lose (fresh link List.mem_cons_self)
      (fun c eq => Option.some.inj eq ▸ within) nofun)
      ⟨within, fun l mem => fresh l (later l mem), nodupLater, fun id l present => ?_⟩
    by_cases hit : l.backup = link.backup ∧ s.reaches link = true
    · obtain ⟨own, served⟩ := hit
      rcases all id l present with ⟨-, unserved⟩ | ⟨pending, -⟩
      · have not := unserved link List.mem_cons_self own.symm
        rw [served] at not
        cases not
      refine .inr ⟨pendingLater id l present pending, fun k mem own' also => ?_⟩
      have not := alone k mem (own'.trans own) served
      rw [before k also] at not
      cases not
    · have harmless : link.backup = l.backup → s.reaches link = true → change.isAccount = true :=
        fun own served => absurd ⟨own.symm, served⟩ hit
      rcases all id l present with ⟨done, unserved⟩ | ⟨pending, reach⟩
      · refine .inl ⟨done.lose harmless, fun k mem own => ?_⟩
        rw [← Bool.not_eq_true]
        intro also
        have not := unserved k (later k mem) own
        rw [before k also] at not
        cases not
      · exact .inr ⟨pendingLater id l present pending, fun k mem own also =>
          (reach k (later k mem) own (before k also)).lose harmless⟩

/-- One exchange of a resync. -/
theorem Inv.resync {reply : Reply} {ok : Bool} {changes : List Change} (inv : Inv K s)
    (writer : s.writer = .resyncing link (change :: changes))
    (exchanged : s.exchange link change reply = some (s', ok)) :
    Inv K { s' with writer := if ok then .resyncing link changes else .free } := by
  have held := inv.writer
  rw [writer] at held
  obtain ⟨within, fresh, course, all⟩ := held
  have withinHere := within change List.mem_cons_self
  -- whoever has a link to this backup is up to date, and files are left alone
  have account : ∀ (id : UInt32) (l : Link β), s.cluster.links[id]? = some l →
      l.backup = link.backup → change.isAccount = true := fun id l present own =>
    (all id l present).2.2 own change List.mem_cons_self
  rcases exchange_cases exchanged with ⟨served, rfl, rfl⟩ | ⟨rfl, rfl⟩
  · have linked : Linked (s.applyOn link.backup change) fun _ l =>
        OnCourse (s.applyOn link.backup change) l.backup [] := by
      intro id l present
      have before := (all id l present).1
      by_cases own : l.backup = link.backup
      · rw [own] at before ⊢
        exact before.applyOn_account (account id l present own)
      · exact before.applyOn_of_ne own
    refine Inv.setWriter (inv.toSound.applyOn withinHere) ?_
    cases ok : ((s.backup link.backup).apply change).2 with
    | true =>
      exact ⟨fun c mem => within c (List.mem_cons_of_mem _ mem), fresh, course.applyOn ok,
        fun id l present => ⟨linked id l present, (all id l present).2.1, fun own c mem =>
          (all id l present).2.2 own c (List.mem_cons_of_mem _ mem)⟩⟩
    | false => exact linked
  · exact Inv.setWriter (inv.toSound.lose fresh
      (fun c eq => Option.some.inj eq ▸ withinHere) nofun) fun id l present =>
        (all id l present).1.lose fun own _ => account id l present own.symm

theorem onCourse_attach {b : β} {changes : List Change} (course : OnCourse s b changes)
    (unused : ∀ l c, (l, some c) ∈ s.inFlight → l.conn ≠ link.conn) :
    OnCourse (s.attach link) b changes where
  clean l c mem own here := by
    simp only [State.attach] at here
    by_cases same : b = link.backup
    · rw [same, update_self] at here
      exact absurd (Option.some.inj here).symm (unused l c mem)
    · rw [update_of_ne same] at here
      exact course.clean l c mem own here
  goal := course.goal

theorem Sound.attach (sound : Sound K s) : Sound K (s.attach link) :=
  { sound with
    late := fun l mem => ⟨List.mem_append_right _ (sound.late l mem).1, (sound.late l mem).2⟩ }

/-- The manifest arrived: what will be sent brings the backup up to date. -/
theorem Inv.requestManifest {locals : List (FileKey × FileInfo)} {reply : Reply} (inv : Inv K s)
    (writer : s.writer = .connected link locals)
    (apart : ∀ c d, K c → K d → fnv1a c = fnv1a d → c.length = d.length → c = d)
    (right : reply = .answered → (s.backupHashes link.backup).Right (s.backup link.backup).storage)
    (requested : s.requestManifest link locals reply = some s') : Inv K s' := by
  have held := inv.writer
  rw [writer] at held
  obtain ⟨all, fresh, unused, rfl⟩ := held
  have linked : Linked s fun _ l => OnCourse s l.backup [] := fun id l present =>
    (all id l present).1
  have linkedAfter : Linked s fun _ l => OnCourse (s.attach link) l.backup [] :=
    fun id l present => onCourse_attach (linked id l present) unused
  unfold State.requestManifest at requested
  split at requested
  · cases requested
    exact Inv.setWriter inv.toSound linked
  rename_i request written
  split at requested
  case isFalse =>
    cases requested
    exact Inv.setWriter inv.toSound linked
  cases reply with
  | busy => cases requested
  | lost =>
    cases requested
    exact Inv.setWriter (inv.toSound.lose fresh nofun fun _ => unused) fun id l present =>
      { clean := fun k c mem own here => by
          rcases mem_inFlight_lose mem with old | ⟨new, -⟩
          · exact (linked id l present).clean k c old own here
          · cases new
        goal := (linked id l present).goal }
  | answered =>
    dsimp only at requested
    split at requested
    · cases requested
      exact Inv.setWriter inv.toSound.attach linkedAfter
    rename_i manifest answered
    split at requested
    · cases requested
      exact Inv.setWriter inv.toSound.attach linkedAfter
    rename_i accounts files rest read
    cases requested
    have pv := inv.primaryValid
    have bv := inv.backupValid link.backup
    have listed : s.listed link.backup = (s.backup link.backup).storage.entries :=
      Hashes.report_entries (right rfl) bv
    rw [listed, answerAttach_replica written, Option.bind_eq_some_iff] at answered
    obtain ⟨_, built, sent⟩ := answered
    split at sent <;> cases sent
    rename_i small
    rw [sendable, decide_eq_true_eq, length_buildManifest bv built] at small
    rw [(parses_manifest bv built small).run_self] at read
    cases read
    refine Inv.setWriter inv.toSound.attach
      ⟨fun c => within_of_mem_resyncChanges inv.primaryWithin, fresh, ⟨fun l c mem own here => ?_,
        fun t applied user p => ?_⟩, fun id l present => ⟨linkedAfter id l present,
          (all id l present).2, fun own c mem => ?_⟩⟩
    · simp only [State.attach, update_self] at here
      exact absurd (Option.some.inj here).symm (unused l c mem)
    · rw [Storage.content?, changeAll_resync pv bv applied]
      exact resynced_content_iff.mpr (fun user p f g mine theirs same =>
        apart _ _ (inv.backupWithin link.backup user p _ (by
          rw [Storage.content?, theirs, Option.map_some])) (inv.primaryWithin user p _ (by
            rw [Storage.content?, mine, Option.map_some])) same.1 same.2) user p
    · have same := (linked id l present).goal _ rfl
      rw [own] at same
      exact isAccount_of_mem_resyncChanges pv bv same mem

theorem Inv.stepWriter {reply : Reply} (inv : Inv K s)
    (apart : ∀ c d, K c → K d → fnv1a c = fnv1a d → c.length = d.length → c = d)
    (right : reply = .answered → ∀ link locals, s.writer = .connected link locals →
      (s.backupHashes link.backup).Right (s.backup link.backup).storage)
    (stepped : s.stepWriter reply = some s') : Inv K s' := by
  have held := inv.writer
  unfold State.stepWriter at stepped
  split at stepped
  · cases stepped
  · rename_i change writer
    cases stepped
    rw [writer] at held
    exact Inv.setWriter inv.toSound ⟨held.1, fun link mem => by
        obtain ⟨id, present⟩ := mem_links.mp mem
        exact inv.linkConn id link present, nodup_links inv.apart, fun id link present =>
      .inr ⟨.inl (mem_links.mpr ⟨id, present⟩), fun _ _ _ _ => held.2 id link present⟩⟩
  · rename_i change link todo failed writer
    obtain ⟨⟨t, ok⟩, exchanged, rfl⟩ := Option.map_eq_some_iff.mp stepped
    exact inv.replicate writer exchanged
  · rename_i change failed writer
    cases stepped
    rw [writer] at held
    exact Inv.setWriter inv.toSound fun id link present =>
      (held.2.2.2 id link present).imp And.left fun pending =>
        List.mem_map.mpr ⟨id, pending.1.resolve_left List.not_mem_nil, rfl⟩
  · rename_i task rest writer
    obtain ⟨⟨t, tasks⟩, done, rfl⟩ := Option.map_eq_some_iff.mp stepped
    exact inv.stepTask writer done
  · rename_i writer
    cases stepped
    rw [writer] at held
    exact Inv.setWriter inv.toSound fun id link present =>
      (held id link present).resolve_right List.not_mem_nil
  · rename_i link locals writer
    exact inv.requestManifest writer apart (fun reply => right reply link locals writer) stepped
  · rename_i link change todo writer
    split at stepped
    · obtain ⟨⟨t, ok⟩, exchanged, rfl⟩ := Option.map_eq_some_iff.mp stepped
      exact inv.resync writer exchanged
    · cases stepped
      rw [writer] at held
      exact Inv.setWriter inv.toSound fun id l present => (held.2.2.2 id l present).1
  · cases stepped
    exact inv.goLive ‹_›
  · rename_i previous writer
    cases stepped
    rw [writer] at held
    have quiet : Quiet s { s with down := (previous.map Link.conn).toList ++ s.down } :=
      { Quiet.refl s with
        down := fun _ mem => List.mem_append_right _ mem
        newest := fun _ => .inl rfl }
    exact Inv.setWriter (inv.toSound.quiet quiet) (quiet.writerInv (w := .free) held)

end WriterSteps

/-! ## Every run -/

/-- A server that has just become primary: no link yet. What its predecessor
sent may still be under way to the backups. -/
structure Starts (K : Bytes → Prop) (s : State β) : Prop where
  links : ∀ id : UInt32, s.cluster.links[id]? = none
  writer : s.writer = .free
  primaryValid : s.primary.storage.Valid
  primaryWithin : s.primary.storage.Within K
  backupValid : ∀ b, (s.backup b).storage.Valid
  backupWithin : ∀ b, (s.backup b).storage.Within K
  sent : ∀ link sent, (link, sent) ∈ s.inFlight → link.conn < s.nextConn ∧
    ∃ change : Change, sent = some change ∧ change.Within K

theorem Starts.inv (starts : Starts K s) : Inv K s where
  primaryValid := starts.primaryValid
  primaryWithin := starts.primaryWithin
  backupValid := starts.backupValid
  backupWithin := starts.backupWithin
  sentWithin link change mem := by
    obtain ⟨-, _, eq, within⟩ := starts.sent link _ mem
    cases eq
    exact within
  sentConn link sent mem := (starts.sent link sent mem).1
  linkConn id link present := by
    rw [starts.links] at present
    cases present
  keyed id link present := by
    rw [starts.links] at present
    cases present
  apart i k here := by
    rw [starts.links] at here
    cases here
  late link mem := by
    obtain ⟨-, _, eq, -⟩ := starts.sent link _ mem
    cases eq
  writer := by
    rw [starts.writer]
    intro id link present
    rw [starts.links] at present
    cases present

/-- The uploaded contents are in `K`. -/
def Uploads (K : Bytes → Prop) (_ : State β) : Label β → Prop
  | .upload _ _ file => K file.content
  | _ => True

/-- The hashes a backup has, when its manifest is asked for, are right. -/
def AccurateThere (s : State β) : Writer β → Prop
  | .connected link _ => (s.backupHashes link.backup).Right (s.backup link.backup).storage
  | _ => True

/-- Where files are listed to be compared, by `attach_replica` and for a manifest, no
file has a saved hash with its size and time that is not its own. -/
def Accurate (s : State β) : Label β → Prop
  | .connect _ _ => s.hashes.Right s.primary.storage
  | .writer .answered => AccurateThere s s.writer
  | _ => True

/-- Whenever the write mutex is free, every backup with a link has the primary's
(user, path) → content map. -/
def InSync (s : State β) : Prop :=
  s.writer = .free → ∀ (id : UInt32) link, s.cluster.links[id]? = some link →
    ∀ user path, (s.backup link.backup).storage.content? user path =
      s.primary.storage.content? user path

theorem Inv.inSync (inv : Inv K s) : InSync s := by
  intro free id link present
  have held := inv.writer
  rw [free] at held
  exact (held id link present).goal _ rfl

section Runs

variable [DecidableEq β]

theorem Inv.step {a : Label β}
    (apart : ∀ c d, K c → K d → fnv1a c = fnv1a d → c.length = d.length → c = d)
    (inv : Inv K s) (uploads : Uploads K s a) (accurate : Accurate s a)
    (stepped : step s a = some s') : Inv K s' := by
  have held := inv.writer
  cases a with
  | upload user name file =>
    simp only [Replication.step] at stepped
    split at stepped
    case isFalse => cases stepped
    rename_i names
    split at stepped <;> cases stepped
    rename_i free
    rw [free] at held
    have both := Bool.and_eq_true_iff.mp names
    have sound : Sound K { s with
        primary := { s.primary with storage := (s.primary.storage.commit user name file).1 }
        hashes := s.hashes.forget s.primary.storage (.put user name file) } :=
      { inv.toSound with
        primaryValid := inv.primaryValid.commit both.1 both.2
        primaryWithin := inv.primaryWithin.commit uploads }
    refine Inv.setWriter sound ?_
    have courses := fun id link present => (held id link present).commit file names
    dsimp only at courses
    split
    · rename_i ok
      simp only [if_pos ok] at courses
      exact ⟨uploads, courses⟩
    · rename_i failed
      simp only [if_neg failed] at courses
      exact courses
  | delete user name =>
    simp only [Replication.step] at stepped
    split at stepped
    case isFalse => cases stepped
    rename_i names
    split at stepped <;> cases stepped
    rename_i free
    rw [free] at held
    have sound : Sound K { s with
        primary := { s.primary with storage := (s.primary.storage.remove user name).1 }
        hashes := s.hashes.forget s.primary.storage (.delete user name) } :=
      { inv.toSound with
        primaryValid := inv.primaryValid.remove
        primaryWithin := inv.primaryWithin.remove }
    refine Inv.setWriter sound ?_
    have courses := fun id link present => (held id link present).remove names
    dsimp only at courses
    split
    · rename_i ok
      simp only [if_pos ok] at courses
      exact ⟨trivial, courses⟩
    · rename_i failed
      simp only [if_neg failed] at courses
      exact courses
  | connect member backup =>
    simp only [Replication.step] at stepped
    split at stepped <;> cases stepped
    rename_i free
    rw [free] at held
    have own : s.hashes.report s.primary.storage.entries = s.primary.storage.entries :=
      Hashes.report_entries accurate inv.primaryValid
    rw [own]
    have sound : Sound K { s with
        hashes := s.hashes.keep s.primary.storage.entries, nextConn := s.nextConn + 1 } :=
      { inv.toSound with
        sentConn := fun link sent mem => Nat.lt_succ_of_lt (inv.sentConn link sent mem)
        linkConn := fun id link present => Nat.lt_succ_of_lt (inv.linkConn id link present) }
    refine Inv.setWriter sound ⟨fun id link present =>
      ⟨⟨(held id link present).clean, (held id link present).goal⟩,
        Nat.ne_of_lt (inv.linkConn id link present)⟩, Nat.lt_succ_self _,
      fun l change mem => Nat.ne_of_lt (inv.sentConn l _ mem), rfl⟩
  | writer reply =>
    refine inv.stepWriter apart (fun answered link locals connected => ?_) stepped
    rw [answered, Accurate, connected] at accurate
    exact accurate
  | probe kind =>
    cases stepped
    exact inv.quiet { Quiet.refl s with newest := fun _ => .inl rfl } rfl
  | thread i reply =>
    simp only [Replication.step] at stepped
    split at stepped
    · obtain ⟨⟨t, tasks⟩, done, rfl⟩ := Option.map_eq_some_iff.mp stepped
      obtain ⟨quiet, writer, -⟩ := quiet_stepTask done
      have after := inv.quiet quiet writer
      exact after.quiet { Quiet.refl t with newest := fun _ => .inl rfl } rfl
    · cases stepped
  | addMember member =>
    cases stepped
    exact inv.quiet (.cluster s fun _ _ present => present) rfl
  | removeMember id =>
    cases stepped
    exact inv.quiet (.cluster s fun _ _ present => present) rfl
  | deliver i =>
    obtain ⟨quiet, writer⟩ := quiet_deliver inv.late stepped
    exact inv.quiet quiet writer
  | closed backup =>
    cases stepped
    exact inv.quiet (quiet_closed s backup) rfl
  | list listing =>
    obtain ⟨hashes, -, rfl⟩ := Option.map_eq_some_iff.mp stepped
    exact inv.quiet { Quiet.refl s with newest := fun _ => .inl rfl } rfl
  | backupList b listing =>
    obtain ⟨hashes, -, rfl⟩ := Option.map_eq_some_iff.mp stepped
    exact inv.quiet { Quiet.refl s with newest := fun _ => .inl rfl } rfl

end Runs

/-! ## A resync and an upload -/

section Examples

/-- A primary that stores `x`, and a backup that stores `y`. -/
def twoStores : State Unit where
  cluster := (Cluster.init (bytes "a") 4000).startAsPrimary
  primary := holding (bytes "x") [1]
  backup _ := holding (bytes "y") [2]
  hashes := ∅
  backupHashes _ := ∅
  newest _ := none
  down := []
  inFlight := []
  nextConn := 0
  writer := .free
  threads := []

def oneTwoThree (content : Bytes) : Prop := content = [1] ∨ content = [2] ∨ content = [3]

instance : DecidablePred oneTwoThree := fun _ => inferInstanceAs (Decidable (_ ∨ _))

instance (s : State Unit) (a : Label Unit) : Decidable (Uploads oneTwoThree s a) := by
  cases a <;> unfold Uploads <;> infer_instance

instance (s : State Unit) : ∀ w, Decidable (AccurateThere s w)
  | .connected link _ => inferInstanceAs (Decidable (Hashes.Right (s.backupHashes link.backup) _))
  | .free | .committed _ | .replicating .. | .dropping _ | .resyncing .. | .live _ => isTrue trivial

instance (s : State Unit) : ∀ a, Decidable (Accurate s a)
  | .connect _ _ => inferInstanceAs (Decidable (Hashes.Right s.hashes _))
  | .writer .answered => inferInstanceAs (Decidable (AccurateThere s s.writer))
  | .upload .. | .delete .. | .writer .lost | .writer .busy | .probe _ | .thread .. | .addMember _
  | .removeMember _ | .deliver _ | .closed _ | .list _ | .backupList .. => isTrue trivial

private theorem within_holding {path content : Bytes} {small : content.length < 2 ^ 63}
    (known : oneTwoThree content) : (holding path content small).storage.Within oneTwoThree := by
  intro user p c present
  rw [Storage.content?, file?_holding] at present
  split at present <;> cases present
  exact known

private theorem apart_oneTwoThree (c d : Bytes) (left : oneTwoThree c) (right : oneTwoThree d)
    (same : fnv1a c = fnv1a d) (_ : c.length = d.length) : c = d := by
  rcases left with rfl | rfl | rfl <;> rcases right with rfl | rfl | rfl <;>
    first | rfl | exact absurd same (by decide +kernel)

/-- Neither has a link yet; what they store is known and valid. -/
private theorem starts_holding {path content other : Bytes} {mine : content.length < 2 ^ 63}
    {theirs : other.length < 2 ^ 63} {there : Bytes} (valid : isValidPath path = true)
    (validThere : isValidPath there = true) (known : oneTwoThree content)
    (knownThere : oneTwoThree other) :
    Starts oneTwoThree { twoStores with
      primary := holding path content mine, backup := fun _ => holding there other theirs } where
  links _ := ExtTreeMap.getElem?_empty
  writer := rfl
  primaryValid := valid_holding valid
  primaryWithin := within_holding known
  backupValid _ := valid_holding validThere
  backupWithin _ := within_holding knownThere
  sent _ _ mem := absurd mem List.not_mem_nil

/-- The backup is resynced, then `z` is uploaded. -/
def resyncAndUpload : List (Label Unit) :=
  .connect ⟨999, bytes "b", 4000⟩ () :: List.replicate 5 (.writer .answered) ++
    .upload (bytes "ana") (bytes "z") ⟨[3], 0, by decide⟩ :: List.replicate 4 (.writer .answered)

/-- A client's listing hashes `a`, the next upload of it keeps its size and time, and
then the hash is saved. The backup still has the old content when it is attached. -/
def resyncAfterStale : List (Label Unit) :=
  [.list (.see ⟨bytes "ana", bytes "a"⟩), .list (.next 0), .list (.next 0),
    .upload (bytes "ana") (bytes "a") ⟨[2], 0, by decide⟩, .writer .answered, .writer .answered,
    .writer .answered, .list (.next 0), .connect ⟨999, bytes "b", 4000⟩ (), .writer .answered,
    .writer .answered, .writer .answered]

end Examples

end Replication

end SisOp
