import SisOp.Cluster.Resync
import SisOp.Common.Transfer

/-!
# A put while files and links fail

`put_on_link` and `replicate_put` of `server/cluster.cpp` when the primary may
fail to open or to read the file, a frame or the reply may be lost, and the
backup may fail to open or to write its temporary file or to commit it. A link
whose put returns false is dropped. A file that cannot be opened counts as gone
and an aborted transfer as expected, so a put can return true although the
backup does not have the file.

Main result: `put_replicated_iff`, when a put that counts as replicated is.
-/

namespace SisOp.Puts

open Lib Std
open Transfer (WriteCall recvFileBodyTo contentRead)

/-- What happens on the two machines and on the link during one put. -/
structure Outcome where
  /-- The primary's `open` and `fstat`. -/
  opens : Bool
  /-- The offsets at which the primary's read fails. -/
  readFails : Nat → Bool
  /-- The frames that get through when a send fails. -/
  lost : Option Nat
  /-- The backup's `open` and `write` calls on its temporary file. -/
  destOpens : Bool
  calls : List WriteCall
  /-- The system calls of the backup's `commit`. -/
  commits : Bool
  /-- The reply arrives in time. -/
  answered : Bool

/-- A file some of whose reads fail. -/
def faulty (file : File) (fails : Nat → Bool) : Source where
  size := file.source.size
  mtime := file.mtime
  read offset n := if fails offset then none else file.source.read offset n

/-- The primary's file as `send_file` finds it. -/
def Outcome.source (o : Outcome) (file : File) : Option Source :=
  if o.opens then some (faulty file o.readFails) else none

/-! ## One link -/

/-- `apply_replicated` of a `ReplPut` with the frames that arrive. -/
def applyPut (b : Replica) (o : Outcome) : List Message → Replica × Option Msg
  | [] => (b, none)
  | msg :: body =>
    match readUserHeader.run msg.payload with
    | none => (b, none)
    | some ((user, info), _) =>
      let got := recvFileBodyTo none o.destOpens o.calls info.size body
      match got.result, got.dest with
      | .connectionLost, _ => (b, none)
      | .ok, some content =>
        if small : content.length < 2 ^ 63 then
          if isValidUsername user && isValidPath info.name && o.commits then
            let committed := b.storage.commit user info.name ⟨content, info.mtimeNs, small⟩
            ({ b with storage := committed.1 }, some (if committed.2 then .ok else .error))
          else (b, some .error)
        else (b, some .error)
      | _, _ => (b, some .error)

/-- `put_on_link`: the backup afterwards and what is returned, `none` when the
writer throws. -/
def putOnLink (primary : Storage) (b : Replica) (o : Outcome) (user name : Bytes) :
    Replica × Option Bool :=
  match Writer.str user with
  | none => (b, none)
  | some front =>
    match sendFile .replPut front name ((primary.file? user name).bind o.source) with
    | none => (b, none)
    | some (_, .notSent) => (b, some true) -- the file is taken to be gone
    | some (frames, result) =>
      if !frames.all fun frame => sendable frame.payload then (b, some false)
      else
        match o.lost with
        | some n => ((applyPut b o (frames.take n)).1, some false)
        | none =>
          match applyPut b o frames with
          | (b, some reply) => (b, some (o.answered && (reply == .ok || result == .fileError)))
          | (b, none) => (b, some false)

/-! ## Every link -/

/-- `links_`: what is at the other end of each link. -/
abbrev Links := ExtTreeMap UInt32 Replica

/-- `drop_link`. -/
def dropLink (links : Links) (id : UInt32) : Links := links.erase id

/-- The loop of `replicate_put` over a snapshot of the links: what is at their
ends afterwards and the ids of those that failed; `none` when the writer throws. -/
def putAll (primary : Storage) (outcome : UInt32 → Outcome) (user name : Bytes) :
    List (UInt32 × Replica) → Option (List (UInt32 × Replica) × List UInt32)
  | [] => some ([], [])
  | (id, b) :: links =>
    match putOnLink primary b (outcome id) user name with
    | (b, some ok) => do
      let (ends, failed) ← putAll primary outcome user name links
      pure ((id, b) :: ends, if ok then failed else id :: failed)
    | (_, none) => none

/-- `replicate_put`: every link in turn, then the failed ones are dropped. -/
def replicatePut (primary : Storage) (outcome : UInt32 → Outcome) (user name : Bytes)
    (links : Links) : Option Links := do
  let (ends, failed) ← putAll primary outcome user name links.toList
  pure (failed.foldl dropLink (Map.ofPairs ends))

/-! ## What a put leaves behind -/

section Put

variable {primary : Storage} {b : Replica} {o : Outcome} {user name : Bytes} {file : File}

/-- The file opens and no read of `send_file` fails. -/
def Outcome.Reads (o : Outcome) (file : File) : Prop :=
  o.opens = true ∧
    ∀ k, k * FILE_CHUNK_SIZE < file.content.length → o.readFails (k * FILE_CHUNK_SIZE) = false

theorem readAll_source_of_some {fails : Nat → Bool} {content : Bytes} (n offset : Nat)
    (read : Transfer.readAll (faulty file fails) n offset = some content) :
    Transfer.readAll file.source n offset = some content := by
  induction n generalizing offset content with
  | zero => exact read
  | succ n ih =>
    rw [Transfer.readAll] at read ⊢
    unfold faulty at read
    dsimp only at read
    by_cases past : file.source.size.toNat ≤ offset
    · rw [if_pos past] at read ⊢
      exact read
    · rw [if_neg past] at read ⊢
      dsimp only at read ⊢
      by_cases fail : fails offset = true
      · rw [if_pos fail] at read
        cases read
      · rw [if_neg fail] at read
        cases step : file.source.read offset
            (min (file.source.size.toNat - offset) FILE_CHUNK_SIZE) with
        | none =>
          rw [step] at read
          cases read
        | some data =>
          rw [step] at read
          obtain ⟨rest, tail, rfl⟩ := Option.map_eq_some_iff.mp read
          dsimp only
          rw [ih _ tail, Option.map_some]

private theorem readAll_isSome_iff {fails : Nat → Bool} (n offset : Nat)
    (within : offset ≤ file.content.length) (enough : file.content.length - offset ≤ n) :
    (Transfer.readAll (faulty file fails) n offset).isSome ↔
      ∀ k, offset + k * FILE_CHUNK_SIZE < file.content.length →
        fails (offset + k * FILE_CHUNK_SIZE) = false := by
  have size : file.source.size.toNat = file.content.length := file.toNat_size
  have positive : 0 < FILE_CHUNK_SIZE := by decide
  induction n generalizing offset with
  | zero => exact ⟨fun _ k short => absurd short (by omega), fun _ => rfl⟩
  | succ n ih =>
    rw [Transfer.readAll]
    unfold faulty
    dsimp only
    by_cases past : file.source.size.toNat ≤ offset
    · rw [if_pos past]
      exact ⟨fun _ k short => absurd short (by omega), fun _ => rfl⟩
    · rw [if_neg past]
      by_cases fail : fails offset = true
      · rw [if_pos fail]
        refine ⟨fun read => (by cases read), fun none => ?_⟩
        have here := none 0 (by omega)
        rw [Nat.zero_mul, Nat.add_zero, fail] at here
        cases here
      · rw [if_neg fail, size]
        have whole : offset + min (file.content.length - offset) FILE_CHUNK_SIZE ≤
            file.content.length := by omega
        have read : file.source.read offset (min (file.content.length - offset) FILE_CHUNK_SIZE) =
            some ⟨_, _⟩ := dif_pos whole
        rw [read]
        dsimp only
        rw [Option.isSome_map]
        refine (ih _ whole (by omega)).trans ?_
        constructor
        · intro later k short
          cases k with
          | zero =>
            rw [Nat.zero_mul, Nat.add_zero]
            exact Bool.eq_false_iff.mpr fail
          | succ k =>
            rw [Nat.succ_mul] at short ⊢
            have chunk : min (file.content.length - offset) FILE_CHUNK_SIZE = FILE_CHUNK_SIZE := by
              omega
            have there := later k
            rw [chunk, Nat.add_assoc, Nat.add_comm FILE_CHUNK_SIZE] at there
            exact there short
        · intro all k short
          have chunk : min (file.content.length - offset) FILE_CHUNK_SIZE = FILE_CHUNK_SIZE := by
            omega
          have there := all (k + 1)
          rw [chunk, Nat.add_assoc, Nat.add_comm FILE_CHUNK_SIZE] at short ⊢
          rw [Nat.succ_mul] at there
          exact there short

/-- The file is read whole exactly when no chunk's read fails. -/
theorem contentRead_isSome_iff {source : Source} (opened : o.source file = some source) :
    (contentRead source).isSome ↔ o.Reads file := by
  unfold Outcome.source at opened
  split at opened
  · rename_i opens
    cases opened
    have all := @readAll_isSome_iff file o.readFails file.source.size.toNat 0 (Nat.zero_le _)
      (Nat.le_of_eq file.toNat_size.symm)
    simp only [Nat.zero_add] at all
    exact all.trans ⟨fun reads => ⟨opens, reads⟩, And.right⟩
  · cases opened

/-- What is read when no read fails is the file. -/
theorem content_of_reads {source : Source} {content : Bytes} (opened : o.source file = some source)
    (read : contentRead source = some content) : content = file.content := by
  unfold Outcome.source at opened
  split at opened
  · cases opened
    have plain := readAll_source_of_some _ _ read
    have whole := Transfer.contentRead_source file
    unfold contentRead at whole
    exact (Option.some.inj (plain.symm.trans whole))
  · cases opened

/-- The whole of a put reaches the backup: either it refuses the file and keeps
what it had, or it has read the primary's file and acts on it. -/
theorem applyPut_sendFile {front : Bytes} {source : Source} {frames : List Message}
    {result : TransferResult} (userWritten : Writer.str user = some front)
    (opened : o.source file = some source)
    (sent : sendFile .replPut front name (some source) = some (frames, result)) :
    (result = .fileError ∧ contentRead source = none ∧ applyPut b o frames = (b, some .error)) ∨
    (result = .ok ∧ (contentRead source).isSome ∧ (applyPut b o frames = (b, some .error) ∨
      applyPut b o frames = ((b.apply (.put user name file)).1,
        some (if (b.apply (.put user name file)).2 then .ok else .error)))) := by
  have announced : source.size = file.content.length.toUInt64 ∧ source.mtime = file.mtime := by
    unfold Outcome.source at opened
    split at opened
    · cases opened
      exact ⟨rfl, rfl⟩
    · cases opened
  obtain ⟨header, _, headerWritten, whole, -⟩ := bodyRest_sendFile sent
  obtain ⟨headerFrame, body, framesEq, arrives⟩ := Transfer.sendFile_body sent
  rw [framesEq] at whole
  obtain ⟨rfl, -⟩ := List.cons.inj whole
  have read : Parses readUserHeader (front ++ header)
      (user, ⟨name, source.size, source.mtime, 0⟩) :=
    (parses_str userWritten).bind ((parses_fileHeader headerWritten).bind_pure (f := Prod.mk user))
  have body := arrives []
  subst framesEq
  cases content : contentRead source with
  | none =>
    rw [content] at body
    obtain ⟨rfl, more, body⟩ := body
    rw [List.append_nil] at body
    obtain ⟨-, ⟨-, ok, -⟩ | ⟨failed, dest⟩⟩ :=
      Transfer.recvFileBodyTo_spec none o.destOpens o.calls body
    · cases ok
    · refine .inl ⟨rfl, rfl, ?_⟩
      simp only [applyPut, read.run_self, failed, dest, reduceCtorEq, if_false]
  | some data =>
    rw [content] at body
    obtain ⟨rfl, body⟩ := body
    rw [List.append_nil] at body
    cases content_of_reads opened content
    refine .inr ⟨rfl, rfl, ?_⟩
    obtain ⟨-, ⟨ok, -, dest, -⟩ | ⟨failed, dest⟩⟩ :=
      Transfer.recvFileBodyTo_spec none o.destOpens o.calls body
    · simp only [applyPut, read.run_self, ok, dest, dif_pos file.small]
      by_cases commits : (isValidUsername user && isValidPath name && o.commits) = true
      · rw [if_pos commits]
        refine .inr ?_
        rw [Bool.and_eq_true] at commits
        rw [Replica.apply, if_pos commits.1, announced.2]
      · rw [if_neg commits]
        exact .inl rfl
    · left
      simp only [applyPut, read.run_self, failed, dest, if_true]

/-- Neither the writer throws nor is a frame too large. -/
theorem sendFile_of_valid (userValid : isValidUsername user = true)
    (nameValid : isValidPath name = true) (source : Source) :
    ∃ front frames result, Writer.str user = some front ∧
      sendFile .replPut front name (some source) = some (frames, result) ∧
      result ≠ .notSent ∧ (frames.all fun frame => sendable frame.payload) = true := by
  have userShort := length_le_of_isValidUsername userValid
  have nameShort := length_le_of_isValidPath nameValid
  have userWritten : Writer.str user = some _ :=
    str_eq_some_iff.mpr ⟨Nat.le_trans userShort (by decide), rfl⟩
  obtain ⟨header, headerWritten⟩ := writeFileHeader_isSome ⟨name, source.size, source.mtime, 0⟩
    (Nat.le_trans nameShort (by decide))
  have some_ : (sendFile .replPut (Writer.u16 user.length.toUInt16 ++ user) name
      (some source)).isSome := by
    rw [sendFile, headerWritten]
    rfl
  obtain ⟨⟨frames, result⟩, sent⟩ := Option.isSome_iff_exists.mp some_
  refine ⟨_, frames, result, userWritten, sent, ?_, ?_⟩
  · obtain ⟨_, _, _, arrives⟩ := Transfer.sendFile_body sent
    have body := arrives []
    cases read : contentRead source with
    | none =>
      rw [read] at body
      rw [body.1]
      nofun
    | some content =>
      rw [read] at body
      rw [body.1]
      nofun
  · rw [List.all_eq_true]
    intro frame mem
    exact decide_eq_true (fits_sendFile (length_str_le userWritten) sent frame mem)

/-- A put that can open the file is lost on the way, refused, cut short by the
primary or done. -/
theorem putOnLink_opened (userValid : isValidUsername user = true)
    (nameValid : isValidPath name = true) (present : primary.file? user name = some file)
    (opens : o.opens = true) :
    (((o.lost ≠ none ∨ o.answered = false) ∨ o.Reads file) ∧
      ∃ b', putOnLink primary b o user name = (b', some false)) ∨
    (o.lost = none ∧ o.answered = true ∧
      (¬o.Reads file ∧ putOnLink primary b o user name = (b, some true) ∨
        o.Reads file ∧ (b.apply (.put user name file)).2 = true ∧
          putOnLink primary b o user name = ((b.apply (.put user name file)).1, some true))) := by
  obtain ⟨source, opened⟩ : ∃ source, o.source file = some source :=
    ⟨_, by rw [Outcome.source, if_pos opens]⟩
  obtain ⟨front, frames, result, userWritten, sent, notGone, fits⟩ :=
    sendFile_of_valid userValid nameValid source
  have put : putOnLink primary b o user name =
      match o.lost with
      | some n => ((applyPut b o (frames.take n)).1, some false)
      | none =>
        match applyPut b o frames with
        | (b, some reply) => (b, some (o.answered && (reply == .ok || result == .fileError)))
        | (b, none) => (b, some false) := by
    rw [putOnLink, userWritten]
    simp only [present, Option.bind_some, opened, sent]
    rw [fits]
    cases result with
    | notSent => exact absurd rfl notGone
    | _ => rfl
  rw [put]
  cases lost : o.lost with
  | some n => exact .inl ⟨.inl (.inl nofun), _, rfl⟩
  | none =>
    cases answered : o.answered with
    | false =>
      refine .inl ⟨.inl (.inr rfl), ?_⟩
      dsimp only
      cases applyPut b o frames with
      | mk b' reply => cases reply <;> exact ⟨b', rfl⟩
    | true =>
      obtain ⟨rfl, unread, applied⟩ | ⟨rfl, read, applied | applied⟩ :=
        applyPut_sendFile (b := b) userWritten opened sent
      · refine .inr ⟨rfl, rfl, .inl ⟨fun reads => ?_, ?_⟩⟩
        · rw [← contentRead_isSome_iff opened, unread] at reads
          cases reads
        · rw [applied]
          rfl
      · rw [applied]
        exact .inl ⟨.inr ((contentRead_isSome_iff opened).mp read), b, rfl⟩
      · have reads := (contentRead_isSome_iff opened).mp read
        rw [applied]
        cases ok : (b.apply (.put user name file)).2 with
        | false => exact .inl ⟨.inr reads, _, rfl⟩
        | true => exact .inr ⟨rfl, rfl, .inr ⟨reads, rfl, rfl⟩⟩

/-- A put that cannot open the file returns true and does nothing. -/
theorem putOnLink_unopened (userValid : isValidUsername user = true)
    (present : primary.file? user name = some file) (closed : o.opens = false) :
    putOnLink primary b o user name = (b, some true) := by
  have userShort := length_le_of_isValidUsername userValid
  have userWritten : Writer.str user = some _ :=
    str_eq_some_iff.mpr ⟨Nat.le_trans userShort (by decide), rfl⟩
  have unopened : o.source file = none := by
    rw [Outcome.source, closed]
    rfl
  rw [putOnLink, userWritten]
  simp only [present, Option.bind_some, unopened, sendFile]

theorem putOnLink_isSome (userValid : isValidUsername user = true)
    (nameValid : isValidPath name = true) (present : primary.file? user name = some file) :
    ∃ b' ok, putOnLink primary b o user name = (b', some ok) := by
  cases opens : o.opens with
  | false => exact ⟨b, true, putOnLink_unopened userValid present opens⟩
  | true =>
    obtain ⟨-, b', put⟩ | ⟨-, -, ⟨-, put⟩ | ⟨-, -, put⟩⟩ :=
      putOnLink_opened (b := b) userValid nameValid present opens
    · exact ⟨b', false, put⟩
    · exact ⟨b, true, put⟩
    · exact ⟨_, true, put⟩

end Put

/-! ## The failed links -/

section Links

variable {primary : Storage} {outcome : UInt32 → Outcome} {user name : Bytes} {file : File}
variable {links ends : List (UInt32 × Replica)} {failed : List UInt32} {id : UInt32} {b : Replica}

theorem getElem?_foldl_dropLink (failed : List UInt32) (links : Links) (id : UInt32) :
    (failed.foldl dropLink links)[id]? = if id ∈ failed then none else links[id]? := by
  induction failed generalizing links with
  | nil => rfl
  | cons first failed ih =>
    rw [List.foldl_cons, ih, dropLink, Map.getElem?_erase]
    by_cases here : id = first
    · rw [if_pos here, if_pos (List.mem_cons.mpr (.inl here)), ite_self]
    · rw [if_neg here]
      simp only [List.mem_cons, here, false_or]

theorem putAll_isSome (userValid : isValidUsername user = true)
    (nameValid : isValidPath name = true) (present : primary.file? user name = some file)
    (links : List (UInt32 × Replica)) :
    ∃ ends failed, putAll primary outcome user name links = some (ends, failed) := by
  induction links with
  | nil => exact ⟨[], [], rfl⟩
  | cons link links ih =>
    obtain ⟨ends, failed, rest⟩ := ih
    obtain ⟨b', ok, put⟩ := putOnLink_isSome (b := link.2) (o := outcome link.1) userValid
      nameValid present
    exact ⟨_, _, by rw [putAll, put, rest]; rfl⟩

theorem mem_failed_iff (done : putAll primary outcome user name links = some (ends, failed)) :
    id ∈ failed ↔
      ∃ b, (id, b) ∈ links ∧ (putOnLink primary b (outcome id) user name).2 = some false := by
  induction links generalizing ends failed with
  | nil =>
    cases done
    simp
  | cons link links ih =>
    obtain ⟨first, b⟩ := link
    rw [putAll] at done
    cases put : putOnLink primary b (outcome first) user name with
    | mk b' returned =>
      rw [put] at done
      cases returned with
      | none => cases done
      | some ok =>
        obtain ⟨⟨ends, failed⟩, rest, last⟩ := Option.bind_eq_some_iff.mp done
        cases last
        have tail := ih rest
        simp only [List.mem_cons, Prod.mk.injEq, or_and_right, exists_or, and_assoc,
          exists_and_left, exists_eq_left, ← tail]
        cases ok with
        | true =>
          refine ⟨.inr, ?_⟩
          rintro (⟨rfl, same⟩ | mem)
          · rw [put] at same
            cases same
          · exact mem
        | false =>
          rw [if_neg nofun, List.mem_cons]
          refine or_congr_left ⟨?_, And.left⟩
          rintro rfl
          exact ⟨rfl, by rw [put]⟩

/-- A link whose put returned false is gone. -/
theorem dropped_of_false {all : Links} (linked : all[id]? = some b)
    (userValid : isValidUsername user = true) (nameValid : isValidPath name = true)
    (present : primary.file? user name = some file)
    (failed : (putOnLink primary b (outcome id) user name).2 = some false) :
    ∃ left, replicatePut primary outcome user name all = some left ∧ left[id]? = none := by
  obtain ⟨ends, ids, done⟩ := putAll_isSome userValid nameValid present all.toList
  refine ⟨_, by rw [replicatePut, done]; rfl, ?_⟩
  rw [getElem?_foldl_dropLink, if_pos]
  exact (mem_failed_iff done).mpr ⟨b, Map.mem_toList_iff.mpr linked, failed⟩

end Links

/-! ## The law -/

/-- What a put on one of the links must come to: it returns true and the backup
has what the primary has, or it returns false and the link is dropped. -/
def Replicated (primary : Storage) (outcome : UInt32 → Outcome) (user name : Bytes) (links : Links)
    (id : UInt32) (b : Replica) : Prop :=
  match putOnLink primary b (outcome id) user name with
  | (b', some true) => b'.storage.content? user name = primary.content? user name
  | (_, some false) =>
    ∃ left, replicatePut primary outcome user name links = some left ∧ left[id]? = none
  | (_, none) => False

/-- A put comes to that exactly when the file opens and can be read to its end,
or the backup had its content already, or the file opens and a frame or the
reply is lost. -/
theorem put_replicated_iff {primary : Storage} {outcome : UInt32 → Outcome} {user name : Bytes}
    {links : Links} {id : UInt32} {b : Replica} {file : File} (valid : primary.Valid)
    (present : primary.file? user name = some file) (linked : links[id]? = some b) :
    Replicated primary outcome user name links id b ↔
      (outcome id).Reads file ∨ b.storage.content? user name = some file.content ∨
        (outcome id).opens = true ∧ ((outcome id).lost ≠ none ∨ (outcome id).answered = false) := by
  have occupied : primary.file? user name ≠ none := by rw [present]; nofun
  have userValid := valid.user user (Storage.mem_userDirs_of_file? occupied)
  have nameValid := valid.path user name occupied
  have stored : primary.content? user name = some file.content := by
    rw [Storage.content?, present]
    rfl
  have dropped := @dropped_of_false primary outcome user name file id b links linked userValid
    nameValid present
  unfold Replicated
  cases opens : (outcome id).opens with
  | false =>
    rw [putOnLink_unopened userValid present opens]
    dsimp only
    rw [stored]
    refine ⟨fun held => .inr (.inl held), ?_⟩
    rintro (reads | held | ⟨opened, -⟩)
    · rw [reads.1] at opens
      cases opens
    · exact held
    · cases opened
  | true =>
    obtain ⟨why, b', put⟩ | ⟨lost, answered, ⟨unread, put⟩ | ⟨reads, ok, put⟩⟩ :=
      putOnLink_opened (b := b) userValid nameValid present opens
    · rw [put] at dropped ⊢
      refine ⟨fun _ => ?_, fun _ => dropped rfl⟩
      rcases why with unanswered | reads
      · exact .inr (.inr ⟨rfl, unanswered⟩)
      · exact .inl reads
    · rw [put, stored]
      refine ⟨fun held => .inr (.inl held), ?_⟩
      rintro (reads | held | ⟨-, away | silent⟩)
      · exact absurd reads unread
      · exact held
      · exact absurd lost away
      · rw [answered] at silent
        cases silent
    · rw [put, stored]
      refine ⟨fun _ => .inl reads, fun _ => ?_⟩
      dsimp only
      simp only [Replica.apply, userValid, nameValid, Bool.and_self, if_true] at ok ⊢
      rw [Storage.content?_commit ok, if_pos ⟨rfl, rfl⟩]

/-- A link to a server that has nothing yet. -/
def oneLink : Links := (∅ : Links).insert 999 ⟨∅, ∅⟩

/-- A put during which nothing fails. -/
def untroubled : Outcome :=
  ⟨true, fun _ => false, none, true, [.wrote 1], true, true⟩

theorem put_replicated_new :
    Replicated (holding (bytes "x") [1]).storage (fun _ => untroubled) (bytes "ana") (bytes "x")
      oneLink 999 ⟨∅, ∅⟩ := by
  have present : (holding (bytes "x") [1]).storage.file? (bytes "ana") (bytes "x") =
      some ⟨[1], 0, by decide⟩ := by
    rw [file?_holding, if_pos ⟨rfl, rfl⟩]
  exact (put_replicated_iff (valid_holding (by decide)) present
    (by rw [oneLink, Map.getElem?_insert, if_pos rfl])).mpr (.inl ⟨rfl, fun _ _ => rfl⟩)

/-- The primary has no descriptor left to open the file with: the put counts as
done and the backup stays empty. -/
theorem put_unsent :
    ¬∀ (primary : Storage) (outcome : UInt32 → Outcome) (user name : Bytes) (links : Links)
      (id : UInt32) (b : Replica) (file : File), primary.Valid →
      primary.file? user name = some file → links[id]? = some b →
      Replicated primary outcome user name links id b := by
  intro claim
  have present : (holding (bytes "x") [1]).storage.file? (bytes "ana") (bytes "x") =
      some ⟨[1], 0, by decide⟩ := by
    rw [file?_holding, if_pos ⟨rfl, rfl⟩]
  have held := claim _ (fun _ => { untroubled with opens := false }) _ _ oneLink 999 ⟨∅, ∅⟩ _
    (valid_holding (by decide)) present (by rw [oneLink, Map.getElem?_insert, if_pos rfl])
  unfold Replicated at held
  rw [putOnLink_unopened (by decide) present rfl] at held
  dsimp only at held
  rw [Storage.content?, Storage.content?, present, Storage.file?_empty] at held
  cases held

end SisOp.Puts
