import SisOp.Client.Watches

/-!
# What the watcher reports

Runs of `SisOp.Client.Watcher`: a file that is not as the worker last saw it, or as it
was when `start` returned, is in the queue of the worker, or an event about it or about a
directory above it waits and will be understood, or someone has it open for writing. No
event may be lost and no system call of the watcher refused on the way.

Main results: `watched_exactly`, once everything is handled the watcher watches the
directories with valid paths, each under the path it has now, and nothing else, and
`changes_looked_at`, the worker has looked at every file that has changed since after
its last change.
-/

namespace SisOp.Watcher

open Lib Lib.Inotify Std

variable {κ : Type*} {v : View κ} {s s' : State κ} {p q : Bytes} {n : Name} {D w : Nat}
  {kind : Kind}

/-! ## Files on the way to the worker -/

namespace View

/-- Someone has the file at the path open for writing. -/
def Open (v : View κ) (p : Bytes) : Prop :=
  ∃ content writers, v.find p = some (.file content (writers + 1))

/-- An event waits that will bring the path to the worker. -/
def Heralded (v : View κ) (p : Bytes) : Prop :=
  v.Announced p ∨ ∃ R r n w kind, v.Clean R r ∧ v.watch R = some w ∧ kind ≠ .create ∧
    .entry w kind false n ∈ v.pend ∧ p = child r n

end View

section Program

variable {k' : Kernel Name κ} {o : Outcome Name κ} (sound : Sound s.root s.kernel)
  (applied : Applied s.kernel k' o) (inv : Inv s.view [])
include applied

theorem dir_notice {P : Nat} {E : Nat} (differs : ¬((k'.dirs P)[n]? = some (DirEntry.dir E) ↔
    (s.view.dirs P)[n]? = some (DirEntry.dir E))) : ∃ kind, .entry P kind true n ∈ o.notices := by
  by_contra quiet
  rw [applied.dirs] at differs
  exact differs (dir_iff_of_quiet applied.does fun kind mem => quiet ⟨kind, mem⟩)

include sound inv

/-- A notice of a directory that is still at its path is heralded by its event, or by
one about a directory above it. -/
theorem heralded_of_notice {isDir : Bool} (here : (s.after k').view.At D q)
    (mem : .entry D kind isDir n ∈ o.notices) (told : isDir = true ∨ kind ≠ .create)
    (inside : Inside p (child q n)) (exact : isDir = true ∨ p = child q n) :
    (s.after k').view.Heralded p := by
  rcases (inv.program sound applied inv.proper).clean_or here with
    clean | announced | ⟨task, mem, -⟩
  · obtain ⟨w, watched, -⟩ := clean.known.watched (inv.program sound applied inv.proper).proper
    have pending := applied.pending_of_notice mem (watch_back applied watched)
    cases isDir with
    | true =>
      refine .inl ⟨D, q, n, w, kind, clean, watched, ?_, inside⟩
      exact mem_news_iff.mpr (List.mem_append_right _ pending)
    | false =>
      refine .inr ⟨D, q, n, w, kind, clean, watched, told.resolve_left (by decide), ?_,
        exact.resolve_left (by decide)⟩
      exact List.mem_append_right _ pending
  · exact .inl (announced.inside inside.of_child)
  · cases mem

/-- A path whose directories have changed is heralded. -/
theorem at_iff_or_heralded (q : Bytes) :
    (∀ D, (s.after k').view.At D q ↔ s.view.At D q) ∨
      ∀ p, Inside p q → (s.after k').view.Heralded p := by
  by_cases same : ∀ D, (s.after k').view.At D q ↔ s.view.At D q
  · exact .inl same
  · obtain ⟨D, differs⟩ := not_forall.mp same
    refine .inr fun p inside => ?_
    have changed : ∃ R r m E, (s.after k').view.At R r ∧
        ¬((k'.dirs R)[m]? = some (DirEntry.dir E) ↔
          (s.view.dirs R)[m]? = some (DirEntry.dir E)) ∧ Inside q (child r m) := by
      by_cases now : (s.after k').view.At D q
      · rcases PathSystem.Chain.broken (s := paths) now s.view.Entry with
          before | ⟨R, r, m, E, new, -, entry, gone, below⟩
        · exact absurd (iff_of_true now before) differs
        · exact ⟨R, r, m, E, new, fun both => gone ⟨entry.1, both.mp entry.2⟩, below⟩
      · have before : s.view.At D q := by
          by_contra never
          exact differs (iff_of_false now never)
        rcases PathSystem.Chain.broken (s := paths) before (s.after k').view.Entry with
          still | ⟨R, r, m, E, -, new, entry, gone, below⟩
        · exact absurd still now
        · exact ⟨R, r, m, E, new, fun both => gone ⟨entry.1, both.mpr entry.2⟩, below⟩
    obtain ⟨R, r, m, E, here, change, below⟩ := changed
    obtain ⟨kind, mem⟩ := dir_notice applied change
    exact heralded_of_notice sound applied inv here mem (.inl rfl)
      (PathSystem.Inside.trans inside below) (.inl rfl)

/-- **A path at which something has changed is heralded, or being written.** -/
theorem find_after (valid : isValidPath p = true) :
    (s.after k').view.find p = s.view.find p ∨ (s.after k').view.Open p ∨
      (s.after k').view.Heralded p := by
  obtain ⟨q, n, rfl⟩ := exists_child valid
  have above := isValidPath_up valid
  rcases at_iff_or_heralded sound applied inv q with same | heralded
  · by_cases found : ∃ D, s.view.At D q
    · obtain ⟨D, here⟩ := found
      have now := (same D).mpr here
      have find : s.view.find (child q n) = (s.view.dirs D)[n]? := by
        rw [View.find_child, (View.find_iff above D).mpr here]
        rfl
      have find' : (s.after k').view.find (child q n) = (k'.dirs D)[n]? := by
        rw [View.find_child, (View.find_iff above D).mpr now]
        rfl
      by_cases told : ∃ kind isDir, (isDir = true ∨ kind ≠ .create) ∧
          .entry D kind isDir n ∈ o.notices
      · obtain ⟨kind, isDir, told, mem⟩ := told
        exact .inr (.inr (heralded_of_notice sound applied inv now mem told (.here _) (.inr rfl)))
      · have quiet : (o.dirs D)[n]? = (s.kernel.dirs D)[n]? ∨ ∃ content writers,
            (o.dirs D)[n]? = some (.file content (writers + 1)) :=
          entry_of_quiet applied.does fun kind isDir about mem => told ⟨kind, isDir, about, mem⟩
        rw [← applied.dirs] at quiet
        unfold View.Open
        rw [find, find']
        rcases quiet with still | writing
        · exact .inl still
        · exact .inr (.inl writing)
    · have nothing : ∀ {v' : View κ}, (∀ D, ¬v'.At D q) → v'.find (child q n) = none := by
        intro v' never
        rw [View.find_child, Option.eq_none_iff_forall_ne_some]
        intro node eq
        obtain ⟨P, dir, -⟩ := View.step_eq_some_iff.mp eq
        exact never P ((View.find_iff above P).mp dir)
      rw [nothing fun D here => found ⟨D, (same D).mp here⟩, nothing fun D here => found ⟨D, here⟩]
      exact .inl rfl
  · exact .inr (.inr (heralded _ (.under n (.here q))))

theorem heralded_after (heralded : s.view.Heralded p) : (s.after k').view.Heralded p := by
  rcases heralded with ⟨R, r, n, w, kind, clean, watched, pending, inside⟩ |
    ⟨R, r, n, w, kind, clean, watched, told, pending, rfl⟩
  · rcases clean_after sound applied inv.proper clean with clean' | announced
    · have watched' := (watch_kept sound applied clean'.known.at.there).trans watched
      exact .inl ⟨R, r, n, w, kind, clean', watched', news_mono applied pending, inside⟩
    · exact .inl (announced.inside inside.of_child)
  · rcases clean_after sound applied inv.proper clean with clean' | announced
    · have watched' := (watch_kept sound applied clean'.known.at.there).trans watched
      refine .inr ⟨R, r, n, w, kind, clean', watched', told, ?_, rfl⟩
      rcases List.mem_append.mp pending with early | late
      · exact List.mem_append_left _ early
      · exact List.mem_append_right _ (applied.pending late)
    · exact .inl (announced.inside (.under n (.here r)))

end Program

/-! ## The invariant of runs -/

/-- Nothing was lost or refused so far. -/
def Whole (s : State κ) : Prop := s.kernel.lost = false ∧ s.refused = false

/-- What holds of the kernel, the table and the queue, whatever is left to do. -/
structure Base (s : State κ) : Prop where
  sound : Sound s.root s.kernel
  tabled : ∀ {D w : Nat}, s.kernel.watch D = some w → ∃ p, s.dirs[w]? = some p
  used : ∀ {w : Nat} {kind : Kind} {isDir : Bool} {n : Name},
    .entry w kind isDir n ∈ s.view.pend → w < s.kernel.nextWd
  gone : ∀ {w : Nat}, .ignored w ∈ s.view.pend → w < s.kernel.nextWd ∧
    ∀ D, s.kernel.watch D ≠ some w
  self : ∀ {w : Nat}, .deleteSelf w ∈ s.view.pend ∨ .moveSelf w ∈ s.view.pend → w ≠ s.rootWd
  closes : ∀ {w : Nat} {n : Name}, .entry w .closeWrite true n ∉ s.view.pend
  ended : s.ended = false
  distinct : s.queue.Nodup
  queued : ∀ name, name ∈ s.queued ↔ name ∈ s.queue

/-- The tasks end with a report, or with the end of `start`. -/
def Ends (todo : List Task) : Prop :=
  ∀ task, todo.getLast? = some task → task = .report ∨ task = .started

/-- What the worker has seen at a path, or else what was there at first. -/
def State.known (s : State κ) (path : Bytes) : Option κ := (s.seen path).getD (s.first path)

/-- A file that is not as it is known is on the way to the worker. -/
structure Good (s : State κ) : Prop extends Base s where
  inv : Inv s.view s.todo
  ends : Ends s.todo
  looked : ∀ {p : Bytes}, isValidPath p = true → s.view.content p ≠ s.known p → ¬s.view.Open p →
    .started ∈ s.todo ∨ .report ∈ s.todo ∨ [] ∈ s.queue ∨ p ∈ s.queue ∨ s.view.Heralded p

section Ends

variable {task : Task} {rest : List Task}

theorem Ends.busy (ends : Ends rest) (busy : rest ≠ []) : .started ∈ rest ∨ .report ∈ rest := by
  obtain ⟨task, last⟩ := Option.ne_none_iff_exists'.mp (mt List.getLast?_eq_none_iff.mp busy)
  have mem := List.mem_of_getLast? last
  rcases ends task last with rfl | rfl
  · exact .inr mem
  · exact .inl mem

theorem Ends.tail (ends : Ends (task :: rest)) : Ends rest := by
  intro last eq
  refine ends last ?_
  rw [List.getLast?_cons, eq]
  rfl

theorem Ends.more (ends : Ends (task :: rest)) (other : ¬(task = .report ∨ task = .started)) :
    rest ≠ [] := by
  rintro rfl
  exact other (ends task rfl)

theorem Ends.ahead (ends : Ends rest) (busy : rest ≠ []) (front : List Task) :
    Ends (front ++ rest) := by
  intro last eq
  refine ends last ?_
  rwa [List.getLast?_append_of_ne_nil _ busy] at eq

end Ends

/-! ## Programs -/

theorem kept_program {op : Op Name κ} (sound : Sound s.root s.kernel)
    (stepped : step s (.program op) = some s') (whole : Whole s') :
    ∃ k' o, Applied s.kernel k' o ∧ s' = s.after k' := by
  obtain ⟨k', ran, rfl⟩ := Option.map_eq_some_iff.mp stepped
  obtain ⟨o, applied⟩ := applied_of_apply sound ran whole.1
  exact ⟨k', o, applied, rfl⟩

theorem Good.program {k' : Kernel Name κ} {o : Outcome Name κ} (good : Good s)
    (applied : Applied s.kernel k' o) : Good (s.after k') := by
  have sound := good.sound
  have sound' := applied.sound sound
  have inv := good.inv.program sound applied good.inv.proper
  have told : ∀ {event : Event Name}, event ∈ (s.after k').view.pend → event ∈ s.view.pend ∨
      ∃ notice ∈ o.notices, event ∈ s.kernel.events notice := by
    intro event mem
    rcases List.mem_append.mp mem with early | late
    · exact .inl (List.mem_append_left _ early)
    · exact ((applied.queue event).mp late).imp_left (List.mem_append_right _)
  have nextWd : (s.after k').kernel.nextWd = s.kernel.nextWd := applied.nextWd
  refine ⟨⟨sound', fun watched => good.tabled (watch_back applied watched), fun mem => ?_,
    fun mem => ?_, fun mem => ?_, fun mem => ?_, good.ended, good.distinct, good.queued⟩, inv,
    good.ends, fun valid differs closed => ?_⟩
  · rw [nextWd]
    rcases told mem with old | ⟨notice, -, new⟩
    · exact good.used old
    · cases tells_of_mem new with
      | entry _ _ _ watched => exact (sound.watched watched).2
  · rw [nextWd]
    rcases told mem with old | ⟨notice, mem, new⟩
    · exact ⟨(good.gone old).1, fun D watched => (good.gone old).2 D (watch_back applied watched)⟩
    · cases tells_of_mem new with
      | @ignored D _ watched =>
        refine ⟨(sound.watched watched).2, fun D' watched' => ?_⟩
        cases sound.apart (watch_back applied watched') watched
        have none_ := applied.watch D
        rw [if_pos mem] at none_
        cases none_.symm.trans watched'
  · have top : ∀ {D w}, s.kernel.watch D = some w → D ≠ s.root → w ≠ s.rootWd := by
      rintro D w watched other rfl
      exact other (sound.apart watched good.inv.proper.root)
    rcases mem with mem | mem
    · rcases told mem with old | ⟨notice, mem, new⟩
      · exact good.self (.inl old)
      · cases tells_of_mem new with
        | deleteSelf watched => exact top watched (deleted_of_notice applied.does sound mem).1
    · rcases told mem with old | ⟨notice, mem, new⟩
      · exact good.self (.inr old)
      · cases tells_of_mem new with
        | moveSelf watched =>
          obtain ⟨P, n, entry⟩ := moved_of_notice applied.does mem
          exact top watched (sound.forest.below entry).2
  · rcases told mem with old | ⟨notice, mem, new⟩
    · exact good.closes old
    · cases tells_of_mem new with
      | entry _ _ _ _ => exact not_closeWrite applied.does mem
  · by_cases idle : s.todo = []
    · have inv₀ : Inv s.view [] := idle ▸ good.inv
      rcases find_after sound applied inv₀ valid with same | writing | heralded
      · unfold View.content at differs
        rw [same] at differs
        unfold View.Open at closed
        rw [same] at closed
        exact (good.looked valid differs closed).imp_right fun rest => rest.imp_right fun rest =>
          rest.imp_right fun rest => rest.imp_right (heralded_after sound applied inv₀)
      · exact absurd writing closed
      · exact .inr (.inr (.inr (.inr heralded)))
    · exact (good.ends.busy idle).imp_right .inl

/-! ## The watcher's calls -/

/-- Other tasks in the same view. -/
theorem Base.retask (good : Base s) {todo : List Task} (inv : Inv s.view todo) (ends : Ends todo)
    (busy : todo ≠ []) : Good { s with todo := todo } := by
  refine ⟨⟨good.sound, good.tabled, good.used, good.gone, good.self, good.closes, good.ended,
    good.distinct, good.queued⟩, inv, ends, fun _ _ _ => (ends.busy busy).imp_right .inl⟩

/-- The first task is done, and leads to others. -/
theorem Good.replace (good : Good s) {task : Task} {rest : List Task} (todo : s.todo = task :: rest)
    (other : ¬(task = .report ∨ task = .started)) (front : List Task)
    (based : ∀ task ∈ front, task.Based s.view)
    (covers : ∀ C q, s.view.At C q → task.Covers q → ∃ task ∈ front, task.Covers q) :
    Good { s with todo := front ++ rest } := by
  have inv := good.inv
  have ends := good.ends
  rw [todo] at inv ends
  have more := ends.more other
  exact good.toBase.retask (inv.replace front based covers) (ends.tail.ahead more front)
    (List.append_ne_nil_of_right_ne_nil _ more)

theorem Good.visit {path : Bytes} {rest : List Task} (good : Good s)
    (todo : s.todo = .visit path :: rest) (here : s.view.At D path) :
    Good { s.visited path D with todo := .list path :: rest } := by
  have inv := todo ▸ good.inv
  have ends : Ends (.visit path :: rest) := todo ▸ good.ends
  have more := ends.more (by simp)
  have unused : ∀ n, news s.kernel.nextWd n s.view.pend = [] := by
    refine fun n => List.eq_nil_iff_forall_not_mem.mpr fun kind mem => ?_
    exact absurd (good.used (mem_news_iff.mp mem)) (Nat.lt_irrefl _)
  have grown : s.kernel.nextWd ≤ (s.kernel.addWatch D).2.nextWd := by
    rcases s.kernel.addWatch_cases D with ⟨-, same⟩ | ⟨-, -, next⟩ <;> omega
  have small : D < s.kernel.nextInode := by
    rcases here.there with top | ⟨P, n, entry⟩
    · rw [top]
      exact good.sound.top_lt
    · exact (good.sound.forest.below entry).1
  have pend : ∀ {event}, event ∈ (s.visited path D).view.pend → event ∈ s.view.pend := by
    intro event mem
    rwa [pend_visited] at mem
  refine ⟨⟨?_, fun {E w} watched => ?_, fun mem => ?_, fun mem => ?_, fun mem => ?_,
    fun mem => good.closes (pend mem), good.ended, good.distinct, good.queued⟩,
    inv.visit good.sound inv.proper here unused, ?_, fun _ _ _ => ?_⟩
  · exact good.sound.addWatch small
  · have watched' : (s.visited path D).view.watch E = some w := watched
    rcases watch_visited good.sound watched' with ⟨-, rfl⟩ | ⟨other, before⟩
    · exact ⟨path, table_visited_self⟩
    · obtain ⟨p, table⟩ := good.tabled before
      exact ⟨p, (table_visited other).trans table⟩
  · exact Nat.lt_of_lt_of_le (good.used (pend mem)) grown
  · obtain ⟨old, never⟩ := good.gone (pend mem)
    refine ⟨Nat.lt_of_lt_of_le old grown, fun E watched => ?_⟩
    have watched' : (s.visited path D).view.watch E = some _ := watched
    rcases watch_visited good.sound watched' with ⟨rfl, rfl⟩ | ⟨-, before⟩
    · rcases s.kernel.addWatch_cases E with ⟨watched', -⟩ | ⟨-, new, -⟩
      · exact never E watched'
      · rw [new] at old
        exact Nat.lt_irrefl _ old
    · exact never E before
  · exact good.self (mem.imp pend pend)
  · exact ends.tail.ahead more [.list path]
  · exact ((ends.tail.ahead more [.list path]).busy (List.cons_ne_nil _ _)).imp_right .inl

/-- The worker's queue has each name once. -/
theorem mem_queue_enqueue (good : Base s) (name : Bytes) : name ∈ (s.enqueue name).queue ∧
    (∀ other ∈ s.queue, other ∈ (s.enqueue name).queue) ∧ (s.enqueue name).queue.Nodup ∧
      ∀ other, other ∈ (s.enqueue name).queued ↔ other ∈ (s.enqueue name).queue := by
  unfold State.enqueue
  split
  · rename_i present
    exact ⟨(good.queued name).mp present, fun _ => id, good.distinct, good.queued⟩
  · rename_i absent
    refine ⟨List.mem_append_right _ (List.mem_singleton_self _), fun _ => List.mem_append_left _,
      ?_, fun other => ?_⟩
    · refine List.nodup_append.mpr ⟨good.distinct, List.nodup_singleton _, ?_⟩
      rintro a mem b single rfl
      exact absent ((good.queued _).mpr (List.mem_singleton.mp single ▸ mem))
    · dsimp only
      rw [Map.mem_insert_iff, good.queued, List.mem_append, List.mem_singleton, or_comm]

theorem enqueue_frame (s : State κ) (name : Bytes) :
    s.enqueue name = { s with
      queue := (s.enqueue name).queue, queued := (s.enqueue name).queued } := by
  unfold State.enqueue
  split <;> rfl

theorem enqueue_todo (s : State κ) (todo : List Task) (name : Bytes) :
    { s with todo := todo }.enqueue name = { s.enqueue name with todo := todo } := by
  unfold State.enqueue
  split <;> rfl

theorem enqueue_idle (s : State κ) (name : Bytes) :
    s.enqueue name = { s.enqueue name with todo := s.todo } := by
  unfold State.enqueue
  split <;> rfl

/-- A task or an event is done, and a name goes to the worker. -/
theorem Base.enqueue (good : Base s) {name : Bytes} {todo : List Task} (inv : Inv s.view todo)
    (ends : Ends todo) (brought : ∀ {p : Bytes}, isValidPath p = true →
      s.view.content p ≠ s.known p → ¬s.view.Open p → todo = [] → name ≠ [] →
        [] ∈ s.queue ∨ p ∈ s.queue ∨ p = name ∨ s.view.Heralded p) :
    Good { s.enqueue name with todo := todo } := by
  obtain ⟨mem, more, distinct, queued⟩ := mem_queue_enqueue good name
  rw [enqueue_frame]
  refine ⟨⟨good.sound, good.tabled, good.used, good.gone, good.self, good.closes, good.ended,
    distinct, queued⟩, inv, ends, fun valid differs closed => ?_⟩
  by_cases busy : todo = []
  · by_cases all : name = []
    · exact .inr (.inr (.inl (all ▸ mem)))
    · rcases brought valid differs closed busy all with rescan | waits | rfl | heralded
      · exact .inr (.inr (.inl (more _ rescan)))
      · exact .inr (.inr (.inr (.inl (more _ waits))))
      · exact .inr (.inr (.inr (.inl mem)))
      · exact .inr (.inr (.inr (.inr heralded)))
  · exact (ends.busy busy).imp_right .inl

theorem Good.call {allowed : Bool} (good : Good s) (stepped : s.call allowed = some s')
    (whole : Whole s') : Good s' := by
  have inv := good.inv
  have ends := good.ends
  unfold State.call at stepped
  split at stepped
  · cases stepped
  · rename_i path rest todo
    rw [todo] at inv
    obtain ⟨-, -, -, valid, -⟩ := inv.tasks _ List.mem_cons_self
    split at stepped
    · rename_i inode found
      split at stepped
      · cases stepped
        exact good.visit todo ((View.find_iff (.inr valid) inode).mp found)
      · cases stepped
        cases whole.2
    · rename_i missing
      cases stepped
      refine good.replace todo (by simp) [] (fun _ mem => by cases mem) fun C q there covers => ?_
      obtain ⟨A, here⟩ := there.up covers
      exact absurd ((View.find_iff (.inr valid) A).mpr here) (missing A)
  · rename_i path rest todo
    rw [todo] at inv
    have based := inv.tasks _ List.mem_cons_self
    split at stepped
    · rename_i inode found
      have here := (View.find_iff based.1 inode).mp found
      split at stepped
      · cases stepped
        refine good.replace todo (by simp) [.scan path (s.kernel.dirs inode).keys] ?_ ?_
        · intro task mem
          cases List.mem_singleton.mp mem
          exact based
        · rintro C q there ⟨n, inside⟩
          refine ⟨_, List.mem_singleton_self _, n, ?_, inside⟩
          obtain ⟨A, B, above, entry⟩ := PathSystem.Chain.through (s := paths) there inside
          cases View.At.unique above here
          refine ExtTreeMap.mem_keys.mpr (Map.mem_iff_ne_none.mpr ?_)
          rw [show (s.kernel.dirs inode)[n]? = _ from entry.2]
          exact Option.some_ne_none _
      · cases stepped
        cases whole.2
    · rename_i missing
      cases stepped
      refine good.replace todo (by simp) [] (fun _ mem => by cases mem) ?_
      rintro C q there ⟨n, inside⟩
      obtain ⟨A, here⟩ := there.up inside.of_child
      exact absurd ((View.find_iff based.1 A).mpr here) (missing A)
  · rename_i path rest todo
    cases stepped
    refine good.replace todo (by simp) [] (fun _ mem => by cases mem) ?_
    rintro C q there ⟨n, mem, -⟩
    cases mem
  · rename_i path name names rest todo
    rw [todo] at inv
    have based := inv.tasks _ List.mem_cons_self
    split at stepped
    · rename_i directory
      rw [Bool.and_eq_true, Bool.and_eq_true] at directory
      cases stepped
      refine good.replace todo (by simp) [.visit (child path name), .scan path names] ?_ ?_
      · intro task mem
        rcases List.mem_pair.mp mem with rfl | rfl
        · exact ⟨path, name, rfl, directory.2, based.2⟩
        · exact based
      · rintro C q there ⟨n, mem, inside⟩
        rcases List.mem_cons.mp mem with rfl | mem
        · exact ⟨_, List.mem_cons_self, inside⟩
        · exact ⟨_, List.mem_cons_of_mem _ List.mem_cons_self, n, mem, inside⟩
    · rename_i other
      cases stepped
      refine good.replace todo (by simp) [.scan path names] ?_ ?_
      · intro task mem
        cases List.mem_singleton.mp mem
        exact based
      · rintro C q there ⟨n, mem, inside⟩
        rcases List.mem_cons.mp mem with rfl | mem
        · -- A directory below it would have made the name one to visit.
          obtain ⟨A, here⟩ := there.up inside
          have valid := here.valid.resolve_left (child_ne_nil _ _)
          refine absurd ?_ other
          rw [Bool.and_eq_true, Bool.and_eq_true, (View.find_iff (.inr valid) A).mpr here]
          exact ⟨⟨isValidFileName_of_isValidPath valid, rfl⟩, valid⟩
        · exact ⟨_, List.mem_singleton_self _, n, mem, inside⟩
  · rename_i rest todo
    rw [todo] at inv ends
    cases stepped
    rw [enqueue_todo]
    refine good.toBase.enqueue (inv.skip fun _ _ _ => id) ends.tail fun _ _ _ _ named => ?_
    exact absurd rfl named
  · rename_i rest todo
    rw [todo] at inv ends
    cases stepped
    exact ⟨⟨good.sound, good.tabled, good.used, good.gone, good.self, good.closes, good.ended,
      good.distinct, good.queued⟩, inv.skip fun _ _ _ => id, ends.tail,
      fun _ differs _ => absurd rfl differs⟩

/-! ## Events -/

section Erase

variable {todo : List Task} (free : ∀ D, v.watch D ≠ some w)
include free

theorem table_erase {w' : Nat} (watched : v.watch D = some w') :
    (v.table.erase w)[w']? = v.table[w']? := by
  rw [Map.getElem?_erase, if_neg]
  rintro rfl
  exact free D watched

theorem linked_erase : View.Linked { v with table := v.table.erase w } = v.Linked := by
  funext P p n D
  refine propext (and_congr_right fun _ => exists_congr fun w' => and_congr_right fun watched => ?_)
  exact iff_of_eq (congrArg (· = _) (table_erase free watched))

theorem known_erase : View.Known { v with table := v.table.erase w } = v.Known := by
  unfold View.Known
  rw [linked_erase free]

theorem clean_erase : View.Clean { v with table := v.table.erase w } = v.Clean := by
  unfold View.Clean View.Settled
  rw [linked_erase free]
  rfl

/-- A table entry of a watch that is gone may go. -/
theorem Inv.erase (inv : Inv v todo) : Inv { v with table := v.table.erase w } todo := by
  have kept : ∀ {w' : Nat} {p : Bytes}, (v.table.erase w)[w']? = some p →
    v.table[w']? = some p := by
    intro w' p found
    rw [Map.getElem?_erase] at found
    split at found
    · cases found
    · exact found
  have doomed : View.Doomed { v with table := v.table.erase w } = v.Doomed := by
    unfold View.Doomed
    rw [known_erase free]
  have based : View.Based { v with table := v.table.erase w } = v.Based := by
    unfold View.Based
    rw [known_erase free, doomed]
  have proper := inv.proper
  refine ⟨⟨proper.top, proper.once, proper.apart, proper.root, ?_⟩, inv.arrives,
    fun found => inv.valid (kept found), fun found top => ?_, fun task mem => ?_,
    fun above entry quiet => ?_⟩
  · exact (table_erase free proper.root).trans proper.rootPath
  · rw [known_erase free, doomed]
    exact inv.stale (kept found) top
  · have before := inv.tasks task mem
    unfold Task.Based at before ⊢
    rwa [based]
  · rw [clean_erase free] at above
    refine (inv.covered above entry quiet).imp_left fun ⟨w', watched, path⟩ => ⟨w', watched, ?_⟩
    exact (table_erase free watched).trans path

theorem heralded_erase (heralded : v.Heralded p) :
    View.Heralded { v with table := v.table.erase w } p := by
  unfold View.Heralded View.Announced at heralded ⊢
  rwa [clean_erase free]

end Erase

section Handle

variable {event : Event Name} {rest : List (Event Name)}

/-- The state while an event is handled. -/
def State.next (s : State κ) (rest : List (Event Name)) : State κ := { s with buffer := rest }

variable (good : Good s) (idle : s.todo = []) (buffer : s.buffer = event :: rest)
include buffer

theorem pend_next : s.view.pend = event :: (s.next rest).view.pend := by
  change s.buffer ++ s.kernel.queue = event :: (rest ++ s.kernel.queue)
  rw [buffer, List.cons_append]

/-- What was heralded still is, unless by the event. -/
theorem heralded_next (heralded : s.view.Heralded p) : (s.next rest).view.Heralded p ∨
    ∃ R r n w kind isDir, s.view.Clean R r ∧ s.view.watch R = some w ∧
      event = .entry w kind isDir n ∧ Inside p (child r n) ∧
        (isDir = true ∨ kind ≠ .create ∧ p = child r n) := by
  have pend := pend_next buffer
  rcases heralded with ⟨R, r, n, w, kind, clean, watched, pending, inside⟩ |
    ⟨R, r, n, w, kind, clean, watched, told, pending, rfl⟩
  · rcases mem_news_pop pend pending with rfl | later
    · exact .inr ⟨R, r, n, w, kind, true, clean, watched, rfl, inside, .inl rfl⟩
    · exact .inl (.inl ⟨R, r, n, w, kind, clean_pop pend clean, watched, later, inside⟩)
  · rw [pend] at pending
    rcases List.mem_cons.mp pending with rfl | later
    · exact .inr ⟨R, r, n, w, kind, false, clean, watched, rfl, .here _, .inr ⟨told, rfl⟩⟩
    · exact .inl (.inr ⟨R, r, n, w, kind, clean_pop pend clean, watched, told, later, rfl⟩)

include good

theorem Good.next : Base (s.next rest) := by
  have mem : ∀ {event' : Event Name}, event' ∈ (s.next rest).view.pend → event' ∈ s.view.pend := by
    intro event' mem
    rw [pend_next buffer]
    exact List.mem_cons_of_mem _ mem
  exact ⟨good.sound, good.tabled, fun m => good.used (mem m), fun m => good.gone (mem m),
    fun m => good.self (m.imp mem mem), fun m => good.closes (mem m), good.ended, good.distinct,
    good.queued⟩

include idle

theorem looked_next (valid : isValidPath p = true)
    (differs : (s.next rest).view.content p ≠ s.known p)
    (closed : ¬(s.next rest).view.Open p) : [] ∈ s.queue ∨ p ∈ s.queue ∨
      (s.next rest).view.Heralded p ∨ ∃ R r n w kind isDir, s.view.Clean R r ∧
        s.view.watch R = some w ∧ event = .entry w kind isDir n ∧ Inside p (child r n) ∧
          (isDir = true ∨ kind ≠ .create ∧ p = child r n) := by
  have looked := good.looked valid differs closed
  rw [idle] at looked
  rcases looked with none_ | none_ | rescan | waits | heralded
  · cases none_
  · cases none_
  · exact .inl rescan
  · exact .inr (.inl waits)
  · exact .inr (.inr (heralded_next buffer heralded))

theorem Good.inv_next {todo : List Task}
    (handled : ∀ {R r n w kind}, s.view.Known R r → s.view.watch R = some w →
      event = .entry w kind true n → isValidPath (child r n) = true →
        ¬kind.leaves ∧ .visit (child r n) ∈ todo)
    (based : ∀ task ∈ todo, task.Based (s.next rest).view) : Inv (s.next rest).view todo := by
  have inv := good.inv
  rw [idle] at inv
  exact inv.pop (pend_next buffer) handled based

/-- An event that is about nothing the watcher knows, or that only says a file was
created. -/
theorem Good.ignore (unheard : ∀ {R r n w kind isDir}, s.view.Known R r → s.view.watch R = some w →
    event = .entry w kind isDir n → (isDir = true ∨ kind ≠ .create) →
      isValidPath (child r n) = false) : Good (s.next rest) := by
  refine ⟨good.next buffer, ?_, fun task last => ?_, fun {p} valid differs closed => ?_⟩
  · change Inv (s.next rest).view s.todo
    rw [idle]
    refine good.inv_next idle buffer (fun known watched eq valid => ?_) fun _ mem => by cases mem
    rw [unheard known watched eq (.inl rfl)] at valid
    cases valid
  · exact good.ends task last
  · rcases looked_next good idle buffer valid differs closed with
      rescan | waits | heralded | ⟨R, r, n, w, kind, isDir, clean, watched, eq, inside, told⟩
    · exact .inr (.inr (.inl rescan))
    · exact .inr (.inr (.inr (.inl waits)))
    · exact .inr (.inr (.inr (.inr heralded)))
    · have below := PathSystem.Inside.valid_child inside valid
      have refused := unheard clean.known watched eq (told.imp_right And.left)
      change isValidPath (child r n) = true at below
      rw [refused] at below
      cases below

end Handle

theorem unwatchTree_whole {relativeDir : Bytes} (base : Base s)
    (lost : (s.unwatchTree relativeDir).kernel.lost = false) :
    Base (s.unwatchTree relativeDir) := by
  have removed := unwatched_unwatchTree base.sound relativeDir
  have pend := removed.pend lost
  have watch := removed.watch
  have frame := removed.frame
  generalize s.unwatchTree relativeDir = s₁ at *
  have nextWd := removed.nextWd
  have rootWd : s₁.rootWd = s.rootWd := by
    rw [frame]
    rfl
  have root : s₁.root = s.root := by
    rw [frame]
    rfl
  refine ⟨root ▸ removed.sound, fun watched => ?_, fun mem => ?_, fun {w} mem => ?_, fun mem => ?_,
    fun mem => ?_, ?_, ?_, ?_⟩
  · obtain ⟨before, stays⟩ := (watch _ _).mp watched
    rw [removed.table _ stays]
    exact base.tabled before
  · rw [nextWd]
    rcases (pend _).mp mem with old | ⟨w, eq, -, -⟩
    · exact base.used old
    · cases eq
  · rw [nextWd]
    rcases (pend _).mp mem with old | ⟨w', eq, here, D, watched⟩
    · exact ⟨(base.gone old).1, fun D watched => (base.gone old).2 D ((watch D w).mp watched).1⟩
    · cases eq
      exact ⟨(base.sound.watched watched).2, fun D' watched' => ((watch D' w).mp watched').2 here⟩
  · rw [rootWd]
    have old : ∀ {event : Event Name}, event ∈ s₁.view.pend → (∀ w, event ≠ .ignored w) →
        event ∈ s.view.pend := by
      intro event mem other
      rcases (pend event).mp mem with old | ⟨w, eq, -, -⟩
      · exact old
      · exact absurd eq (other w)
    refine base.self (mem.imp (fun mem => old mem ?_) fun mem => old mem ?_)
    · intro w eq
      cases eq
    · intro w eq
      cases eq
  · rcases (pend _).mp mem with old | ⟨w, eq, -, -⟩
    · exact base.closes old
    · cases eq
  · rw [frame]
    exact base.ended
  · rw [frame]
    exact base.distinct
  · rw [frame]
    exact base.queued

section Entry

variable {rest : List (Event Name)} {isDir : Bool} {dir : Bytes} (good : Good s)
  (idle : s.todo = [])
  (buffer : s.buffer = .entry w kind isDir n :: rest) (table : s.dirs[w]? = some dir)
include good idle table

omit idle in
theorem table_unique {R : Nat} {r : Bytes} (known : s.view.Known R r)
    (watched : s.view.watch R = some w) : r = dir :=
  Option.some.inj ((known.table good.inv.proper watched).symm.trans table)

include buffer

/-- A directory that came is visited. -/
theorem Good.came (directory : isDir = true) (stays : ¬kind.leaves)
    (valid : isValidPath (child dir n) = true) :
    Good { s.next rest with todo := [.visit (child dir n), .report] } := by
  subst directory
  refine (good.next buffer).retask (good.inv_next idle buffer ?_ ?_) ?_ (List.cons_ne_nil _ _)
  · intro R r m w' kind' known watched eq _
    cases eq
    cases table_unique good table known watched
    exact ⟨stays, List.mem_cons_self⟩
  · intro task mem
    rcases List.mem_pair.mp mem with rfl | rfl
    · refine ⟨dir, n, rfl, valid, ?_⟩
      by_cases top : w = s.rootWd
      · subst top
        cases (Option.some.inj (table.symm.trans good.inv.proper.rootPath))
        exact .inl ⟨s.root, .top⟩
      · rcases good.inv.stale table top with ⟨D, -, known⟩ | doomed
        · exact .inl ⟨D, known⟩
        · rcases doomed_pop (pend_next buffer) doomed with
            still | ⟨R, r, m, w', kind', -, -, eq, leaves, -⟩
          · exact .inr still
          · cases eq
            exact absurd leaves stays
    · trivial
  · intro task last
    cases last
    exact .inl rfl

/-- The directories below one that left are not watched any more. -/
theorem Good.left (directory : isDir = true) (leaves : kind.leaves)
    (lost : ((s.next rest).unwatchTree (child dir n)).kernel.lost = false) :
    Good { (s.next rest).unwatchTree (child dir n) with todo := [.report] } := by
  subst directory
  have view : s.view = (s.next rest).view.before (.entry w kind true n) := by
    unfold State.view View.before
    rw [buffer]
    rfl
  have inv := good.inv
  rw [idle, view] at inv
  have removed := unwatched_unwatchTree (good.next buffer).sound (child dir n)
  refine (unwatchTree_whole (good.next buffer) lost).retask
    (inv.remove table removed leaves lost) (fun task last => ?_) (List.cons_ne_nil _ _)
  cases last
  exact .inl rfl

/-- A file's path goes to the worker. -/
theorem Good.changed (file : isDir = false) :
    Good ((s.next rest).enqueue (child dir n)) := by
  subst file
  have todo : (s.next rest).todo = [] := idle
  rw [enqueue_idle, todo]
  refine (good.next buffer).enqueue (good.inv_next idle buffer ?_ fun _ mem => by cases mem) ?_ ?_
  · intro R r m w' kind' _ _ eq _
    cases eq
  · intro task last
    cases last
  · intro p valid differs closed _ _
    rcases looked_next good idle buffer valid differs closed with
      rescan | waits | heralded | ⟨R, r, m, w', kind', isDir, clean, watched, eq, -, told⟩
    · exact .inl rescan
    · exact .inr (.inl waits)
    · exact .inr (.inr (.inr heralded))
    · cases eq
      cases table_unique good table clean.known watched
      exact .inr (.inr (.inl (told.resolve_left (by decide)).2))

end Entry

theorem Good.handle (good : Good s) (stepped : step s .handle = some s') (whole : Whole s') :
    Good s' := by
  rw [step] at stepped
  split at stepped
  · cases stepped
  · rename_i event rest buffer
    split at stepped
    · rename_i ready
      rw [Bool.and_eq_true, List.isEmpty_iff] at ready
      have idle := ready.1
      cases stepped
      change Good ((s.next rest).event event)
      change Whole ((s.next rest).event event) at whole
      have waits : event ∈ s.view.pend := by
        rw [pend_next buffer]
        exact List.mem_cons_self
      have quiet : (∀ w kind isDir n, event ≠ .entry w kind isDir n) → Good (s.next rest) :=
        fun other => good.ignore idle buffer fun _ _ eq => absurd eq (other _ _ _ _)
      cases event with
      | overflow =>
        have still := quiet fun _ _ _ _ eq => by cases eq
        rw [State.event, enqueue_idle]
        exact still.toBase.enqueue still.inv still.ends fun _ _ _ _ named => absurd rfl named
      | deleteSelf w =>
        have other : w ≠ (s.next rest).rootWd := good.self (.inl waits)
        rw [State.event, if_neg other]
        exact quiet fun _ _ _ _ eq => by cases eq
      | moveSelf w =>
        have other : w ≠ (s.next rest).rootWd := good.self (.inr waits)
        rw [State.event, if_neg other]
        exact quiet fun _ _ _ _ eq => by cases eq
      | ignored w =>
        have still := quiet fun _ _ _ _ eq => by cases eq
        have free := (good.gone waits).2
        have other : w ≠ (s.next rest).rootWd := by
          rintro rfl
          exact free s.root good.inv.proper.root
        rw [State.event, if_neg other]
        refine ⟨⟨still.sound, fun watched => ?_, still.used, still.gone, still.self, still.closes,
          still.ended, still.distinct, still.queued⟩, still.inv.erase free, still.ends,
          fun valid differs closed => ?_⟩
        · obtain ⟨path, table⟩ := still.tabled watched
          exact ⟨path, (table_erase (v := s.view) free watched).trans table⟩
        · exact (still.looked valid differs closed).imp_right fun rest => rest.imp_right fun rest =>
            rest.imp_right fun rest => rest.imp_right (heralded_erase free)
      | entry w kind isDir n =>
        have unknown : (∀ dir, s.dirs[w]? = some dir → isValidPath (child dir n) = false) →
            Good (s.next rest) := by
          refine fun refused => good.ignore idle buffer fun known watched eq _ => ?_
          cases eq
          exact refused _ (known.table good.inv.proper watched)
        rw [State.event]
        rw [State.event] at whole
        cases table : (s.next rest).dirs[w]? with
        | none => exact unknown fun dir there => by cases table.symm.trans there
        | some dir =>
          rw [table] at whole
          dsimp only at whole ⊢
          cases valid : isValidPath (child dir n) with
          | false =>
            exact unknown fun dir' there => by
              cases table.symm.trans there
              exact valid
          | true =>
            rw [valid] at whole
            cases isDir with
            | true =>
              cases kind with
              | create => exact good.came idle buffer table rfl (by decide) valid
              | movedTo => exact good.came idle buffer table rfl (by decide) valid
              | movedFrom => exact good.left idle buffer table rfl (.inl rfl) whole.1
              | delete => exact good.left idle buffer table rfl (.inr rfl) whole.1
              | closeWrite => exact absurd waits good.closes
            | false =>
              by_cases created : kind = .create
              · subst created
                refine good.ignore idle buffer fun known watched eq told => ?_
                cases eq
                exact absurd rfl (told.resolve_left (by decide))
              · rw [if_neg (by decide : ¬(!true) = true), if_neg Bool.false_ne_true, if_pos created]
                exact good.changed idle buffer table rfl
    · cases stepped

/-! ## Runs -/

theorem whole_enqueue {name : Bytes} (whole : Whole (s.enqueue name)) : Whole s := by
  rw [enqueue_frame] at whole
  exact whole

theorem whole_unwatchTree {relativeDir : Bytes} (whole : Whole (s.unwatchTree relativeDir)) :
    Whole s := by
  unfold State.unwatchTree at whole
  revert whole
  generalize s.dirs.toList = entries
  induction entries generalizing s with
  | nil => exact id
  | cons entry entries ih =>
    intro whole
    have next : Whole (s.unwatch relativeDir entry) := ih whole
    unfold State.unwatch at next
    split at next
    · refine ⟨?_, next.2⟩
      have lost := next.1
      unfold Kernel.rmWatch at lost
      split at lost
      · exact (Kernel.queue_push lost).1
      · exact lost
    · exact next

/-- What was lost stays lost. -/
theorem whole_of_step {a : Action κ} (stepped : step s a = some s') (whole : Whole s') :
    Whole s := by
  cases a with
  | program op =>
    obtain ⟨k', ran, rfl⟩ := Option.map_eq_some_iff.mp stepped
    obtain ⟨o, -, rfl⟩ := Option.map_eq_some_iff.mp ran
    exact ⟨Kernel.lost_pushes whole.1, whole.2⟩
  | call allowed =>
    rw [step, State.call] at stepped
    split at stepped
    · cases stepped
    · split at stepped
      · split at stepped
        · cases stepped
          exact ⟨(s.kernel.addWatch_frame _).2.2.1.symm.trans whole.1, whole.2⟩
        · cases stepped
          cases whole.2
      · cases stepped
        exact whole
    · split at stepped
      · split at stepped
        · cases stepped
          exact whole
        · cases stepped
          cases whole.2
      · cases stepped
        exact whole
    · cases stepped
      exact whole
    · split at stepped
      · cases stepped
        exact whole
      · cases stepped
        exact whole
    · cases stepped
      have before := whole_enqueue whole
      exact before
    · cases stepped
      exact whole
  | read count =>
    rw [step] at stepped
    split at stepped
    · cases stepped
      exact whole
    · cases stepped
  | handle =>
    rw [step] at stepped
    split at stepped
    · cases stepped
    · rename_i event rest buffer
      split at stepped
      · cases stepped
        have enqueued : ∀ name, Whole (({ s with buffer := rest } : State κ).enqueue name) →
          Whole s :=
          fun name whole => whole_enqueue (s := { s with buffer := rest }) whole
        unfold State.event at whole
        split at whole
        · exact enqueued _ whole
        · split at whole <;> exact whole
        · split at whole <;> exact whole
        · split at whole <;> exact whole
        · split at whole
          · exact whole
          · split at whole
            · exact whole
            · split at whole
              · split at whole
                · exact whole
                · exact whole
                · exact whole_unwatchTree (s := { s with buffer := rest }) whole
                · exact whole_unwatchTree (s := { s with buffer := rest }) whole
                · exact whole
              · split at whole
                · exact enqueued _ whole
                · exact whole
      · cases stepped
  | take =>
    rw [step] at stepped
    split at stepped
    · cases stepped
    · cases stepped
      exact whole

theorem Good.read {count : Nat} (good : Good s) (stepped : step s (.read count) = some s') :
    Good s' := by
  rw [step] at stepped
  split at stepped
  · rename_i ready
    rw [Bool.and_eq_true, Bool.and_eq_true, List.isEmpty_iff] at ready
    cases stepped
    have view : State.view { s with
        buffer := s.kernel.queue.take count
        kernel := { s.kernel with queue := s.kernel.queue.drop count } } = s.view := by
      unfold State.view
      dsimp only
      rw [List.take_append_drop, List.isEmpty_iff.mp ready.1.2]
      rfl
    have sound := good.sound
    refine ⟨⟨⟨sound.top_lt, sound.forest, sound.watched, sound.apart⟩, good.tabled, fun mem => ?_,
      fun mem => ?_, fun mem => ?_, fun mem => ?_, good.ended, good.distinct, good.queued⟩, ?_,
      good.ends, fun valid differs closed => ?_⟩
    · exact good.used (view ▸ mem)
    · exact good.gone (view ▸ mem)
    · exact good.self (view ▸ mem)
    · exact good.closes (view ▸ mem)
    · rw [view]
      exact good.inv
    · rw [view] at differs closed ⊢
      exact good.looked valid differs closed
  · cases stepped

theorem Good.take (good : Good s) (stepped : step s .take = some s') : Good s' := by
  rw [step] at stepped
  split at stepped
  · cases stepped
  · rename_i name rest queue
    cases stepped
    have distinct := good.distinct
    rw [queue, List.nodup_cons] at distinct
    refine ⟨⟨good.sound, good.tabled, good.used, good.gone, good.self, good.closes, good.ended,
      distinct.2, fun other => ?_⟩, good.inv, good.ends, fun {p} valid differs closed => ?_⟩
    · dsimp only
      rw [Map.mem_erase_iff, good.queued, queue, List.mem_cons]
      constructor
      · rintro ⟨differs, same | mem⟩
        · exact absurd same differs
        · exact mem
      · refine fun mem => ⟨?_, .inr mem⟩
        rintro rfl
        exact distinct.1 mem
    · change s.view.content p ≠ (if name.isEmpty || p == name then some (s.view.content p)
        else s.seen p).getD (s.first p) at differs
      by_cases looked : (name.isEmpty || p == name) = true
      · rw [if_pos looked] at differs
        exact absurd rfl differs
      · have before : s.view.content p ≠ s.known p := by
          rw [if_neg looked] at differs
          exact differs
        rw [Bool.or_eq_true, List.isEmpty_iff, beq_iff_eq, not_or] at looked
        have waits := good.looked valid before closed
        rw [queue, List.mem_cons, List.mem_cons] at waits
        refine waits.imp_right fun waits => waits.imp_right fun waits => ?_
        rcases waits with (same | rescan) | (same | mem) | heralded
        · exact absurd same.symm looked.1
        · exact .inl rescan
        · exact absurd same looked.2
        · exact .inr (.inl mem)
        · exact .inr (.inr heralded)

theorem Good.step {a : Action κ} (good : Good s) (stepped : Watcher.step s a = some s')
    (whole : Whole s') : Good s' := by
  cases a with
  | program op =>
    obtain ⟨k', o, applied, rfl⟩ := kept_program good.sound stepped whole
    exact good.program applied
  | call allowed => exact good.call stepped whole
  | read count => exact good.read stepped
  | handle => exact good.handle stepped whole
  | take => exact good.take stepped

/-- A file system, and a descriptor that was just made. -/
structure New (root : Nat) (k : Kernel Name κ) : Prop where
  sound : Sound root k
  unwatched : ∀ D, k.watch D = none
  unread : k.queue = []
  kept : k.lost = false

theorem good_start {root : Nat} {k : Kernel Name κ} (new : New root k) : Good (start root k) := by
  have top : (start root k).kernel.watch root = some (start root k).rootWd := k.addWatch_watch root
  have only : ∀ {D w : Nat}, (start root k).kernel.watch D = some w →
      D = root ∧ w = (start root k).rootWd := by
    intro D w watched
    by_cases same : D = root
    · subst same
      exact ⟨rfl, Option.some.inj (watched.symm.trans top)⟩
    · have before := ((k.addWatch_frame root).2.2.2 D same).symm.trans watched
      rw [new.unwatched D] at before
      cases before
  have table : ∀ {w : Nat} {p : Bytes}, (start root k).dirs[w]? = some p →
      w = (start root k).rootWd ∧ p = [] := by
    intro w p found
    have eq : (start root k).dirs[w]? = _ := Map.getElem?_insert ..
    rw [found] at eq
    split at eq
    · rename_i same
      cases eq
      exact ⟨same, rfl⟩
    · rw [ExtTreeMap.getElem?_empty] at eq
      cases eq
  have rootPath : (start root k).dirs[(start root k).rootWd]? = some [] :=
    (Map.getElem?_insert ..).trans (if_pos rfl)
  have sound : Sound root (start root k).kernel := new.sound.addWatch new.sound.top_lt
  have pend : (start root k).view.pend = [] := by
    change [] ++ (k.addWatch root).2.queue = []
    rw [(k.addWatch_frame root).2.1, new.unread]
    rfl
  have known : ∀ {D : Nat} {p : Bytes}, (start root k).view.Known D p → D = root ∧ p = [] := by
    intro D p known
    cases known with
    | top => exact ⟨rfl, rfl⟩
    | child above link =>
      obtain ⟨⟨-, entry⟩, w, watched, -⟩ := link
      obtain ⟨rfl, -⟩ := only watched
      exact absurd rfl (sound.forest.below entry).2
  have none_ : ∀ {event : Event Name}, event ∉ (start root k).view.pend := by
    intro event mem
    rw [pend] at mem
    cases mem
  refine ⟨⟨sound, fun watched => ?_, fun mem => absurd mem none_, fun mem => absurd mem none_,
    fun mem => absurd (mem.elim id fun mem => absurd mem none_) none_, none_, rfl,
    List.nodup_nil, fun name => ?_⟩, ⟨⟨?_, sound.forest.once, sound.apart, top, rootPath⟩, ?_, ?_,
      ?_, ?_, ?_⟩, ?_, fun _ _ _ => .inl (List.mem_cons_of_mem _ List.mem_cons_self)⟩
  · obtain ⟨-, rfl⟩ := only watched
    exact ⟨[], rootPath⟩
  · exact iff_of_false ExtTreeMap.not_mem_empty List.not_mem_nil
  · exact fun P n entry => (sound.forest.below entry).2 rfl
  · intro P n D w kind _ _ last
    rw [pend] at last
    cases last
  · exact fun found other => absurd (table found).1 other
  · exact fun found other => absurd (table found).1 other
  · intro task mem
    rcases List.mem_pair.mp mem with rfl | rfl
    · exact ⟨.inl rfl, .inl ⟨root, .top⟩⟩
    · trivial
  · intro P p n D clean _ _
    obtain ⟨rfl, rfl⟩ := known clean.known
    exact .inr ⟨_, List.mem_cons_self, n, .here _⟩
  · intro task last
    cases last
    exact .inr rfl

theorem good_of_run {root : Nat} {k : Kernel Name κ} {as : List (Action κ)} (new : New root k)
    (ran : run Watcher.step (start root k) as = some s) (whole : Whole s) : Good s :=
  run_invariant_of_step (I := fun s => Whole s → Good s)
    (fun _ _ _ held stepped whole => (held (whole_of_step stepped whole)).step stepped whole)
    (fun _ => good_start new) ran whole

/-! ## At rest -/

/-- No event waits, and the watcher does nothing. -/
def State.Idle (s : State κ) : Prop := s.kernel.queue = [] ∧ s.buffer = [] ∧ s.todo = []

/-- A directory the client syncs. -/
def State.Directory (s : State κ) (path : Bytes) (D : Nat) : Prop :=
  (path = [] ∨ isValidPath path = true) ∧ s.view.find path = some (.dir D)

theorem directory_iff : s.Directory p D ↔ s.view.At D p := by
  constructor
  · exact fun ⟨valid, found⟩ => (View.find_iff valid D).mp found
  · exact fun here => ⟨here.valid, (View.find_iff here.valid D).mpr here⟩

theorem pend_idle (idle : s.Idle) : s.view.pend = [] := by
  change s.buffer ++ s.kernel.queue = []
  rw [idle.1, idle.2.1]
  rfl

theorem Good.clean_of_idle (good : Good s) (idle : s.Idle) (here : s.view.At D p) :
    s.view.Clean D p := by
  rcases good.inv.clean_or here with clean | ⟨R, r, n, w, kind, -, -, pending, -⟩ | ⟨task, mem, -⟩
  · exact clean
  · rw [pend_idle idle] at pending
    cases pending
  · rw [idle.2.2] at mem
    cases mem

section Examples

/-- An empty sync directory, the inode 0. -/
def emptyDirectory : Kernel Name Nat := ⟨fun _ => ∅, 1, fun _ => none, 1, [], 100, false⟩

theorem new_emptyDirectory : New 0 emptyDirectory := by
  have none_ : ∀ {D : Nat} {n : Name} {node : DirEntry Nat},
      (emptyDirectory.dirs D)[n]? ≠ some node := by
    intro D n node found
    rw [emptyDirectory, ExtTreeMap.getElem?_empty] at found
    cases found
  refine ⟨⟨by decide, ⟨fun found => absurd found none_, fun found => absurd found none_⟩,
    fun watched => ?_, fun watched => ?_⟩, fun D => rfl, rfl, rfl⟩
  · cases watched
  · cases watched

def nameA : Name := ⟨bytes "a", by decide⟩

def nameB : Name := ⟨bytes "b", by decide⟩

def calls (count : Nat) : List (Action Nat) := List.replicate count (.call true)

/-- A directory is made and filled before it is watched; it is moved with a file that
is written once more while the event of the move waits. -/
def moves : List (Action Nat) :=
  calls 3 ++
    [.program (.mkdir 0 nameA), .program (.create 1 nameA 7), .program (.close 1 nameA), .read 1,
      .handle] ++ calls 4 ++
    [.program (.rename 0 nameA 0 nameB), .call true, .take, .program (.reopen 1 nameA),
      .program (.write 1 nameA 8), .program (.close 1 nameA), .read 4, .handle, .call true,
      .handle] ++ calls 5 ++ [.handle, .handle, .read 1, .handle, .take]

theorem moves_run : (run step (start 0 emptyDirectory) moves).isSome = true := by decide +kernel

def moved : State Nat := (run step (start 0 emptyDirectory) moves).get moves_run

theorem run_moves : run step (start 0 emptyDirectory) moves = some moved :=
  (Option.some_get moves_run).symm

end Examples

end SisOp.Watcher
