import SisOp.Client.Watcher

/-!
# What the watcher knows of the directories

Which directories are known under their path, which of these are up to date, and
what the events that wait say about the others, for one view of `SisOp.Client.Watcher`
and from one step of it to the next.

Main results: the step lemmas of `Inv`, one for each kind of step that changes a view.
-/

namespace SisOp.Watcher

open Lib Lib.Inotify Std

variable {κ : Type*}

abbrev Inside : Bytes → Bytes → Prop := paths.Inside

variable {p q r t : Bytes} {n m : Name} {P Q R D w : Nat} {kind : Kind}

theorem inside_child_iff : Inside (child p n) q ↔ child p n = q ∨ Inside p q :=
  PathSystem.inside_child_iff (s := paths)

theorem Inside.next (inside : Inside p q) : p = q ∨ ∃ n, Inside p (child q n) :=
  PathSystem.Inside.next inside

theorem Inside.of_child (inside : Inside p (child q n)) : Inside p q :=
  PathSystem.Inside.of_child inside

namespace View

/-! ## Directories by path -/

variable (v : View κ)

def Entry (P : Nat) (p : Bytes) (n : Name) (D : Nat) : Prop :=
  isValidPath (child p n) = true ∧ (v.dirs P)[n]? = some (.dir D)

/-- The directory is watched, under the path of its entry. -/
def Linked (P : Nat) (p : Bytes) (n : Name) (D : Nat) : Prop :=
  v.Entry P p n D ∧ ∃ w, v.watch D = some w ∧ v.table[w]? = some (child p n)

/-- No event waits that says something about a directory under the entry. -/
def Quiet (P : Nat) (n : Name) : Prop := ∀ w, v.watch P = some w → news w n v.pend = []

def Settled (P : Nat) (p : Bytes) (n : Name) (D : Nat) : Prop := v.Linked P p n D ∧ v.Quiet P n

/-- The directory at a path. -/
def At : Nat → Bytes → Prop := paths.Chain v.root v.Entry

/-- The directory at a path, this and all above it being watched under their paths. -/
def Known : Nat → Bytes → Prop := paths.Chain v.root v.Linked

/-- No event waits about a directory on the way either. -/
def Clean : Nat → Bytes → Prop := paths.Chain v.root v.Settled

/-- An event waits that a directory at the path or above it has left its place. -/
def Doomed (t : Bytes) : Prop := ∃ R r n w kind, v.Known R r ∧ v.watch R = some w ∧
  Kind.leaves kind ∧ kind ∈ news w n v.pend ∧ Inside t (child r n)

/-- An event waits that will be understood and is about a directory at the path or
above it. -/
def Announced (t : Bytes) : Prop := ∃ R r n w kind, v.Clean R r ∧ v.watch R = some w ∧
  kind ∈ news w n v.pend ∧ Inside t (child r n)

def Based (q : Bytes) : Prop := (∃ Q, v.Known Q q) ∨ v.Doomed q

structure Proper : Prop where
  top : ∀ (P : Nat) (n : Name), (v.dirs P)[n]? ≠ some (DirEntry.dir v.root)
  once : ∀ {P : Nat} {n : Name} {P' : Nat} {n' : Name} {D : Nat},
    (v.dirs P)[n]? = some (DirEntry.dir D) → (v.dirs P')[n']? = some (DirEntry.dir D) →
      P = P' ∧ n = n'
  apart : ∀ {D D' w}, v.watch D = some w → v.watch D' = some w → D = D'
  root : v.watch v.root = some v.rootWd
  rootPath : v.table[v.rootWd]? = some []

variable {v}

/-- One directory is at a path. -/
theorem At.unique {D' : Nat} (here : v.At D p) (here' : v.At D' p) : D = D' := by
  refine PathSystem.Chain.unique (fun P p n D D' one two => ?_) here here'
  have eq := one.2.symm.trans two.2
  cases eq
  rfl

/-- A directory is at one path. -/
theorem At.place (proper : v.Proper) (here : v.At D p) (there : v.At D q) : p = q := by
  refine PathSystem.Chain.path_unique (fun P p n link => proper.top P n link.2)
    (fun P p n P' p' n' D one two => proper.once one.2 two.2) here there

theorem Known.at (known : v.Known D p) : v.At D p :=
  PathSystem.Chain.mono (fun _ _ _ _ link => link.1) known

theorem Clean.known (clean : v.Clean D p) : v.Known D p :=
  PathSystem.Chain.mono (fun _ _ _ _ link => link.1) clean

/-- A directory known at a path has a watch, and the table has it under that path. -/
theorem Known.watched (proper : v.Proper) (known : v.Known D p) :
    ∃ w, v.watch D = some w ∧ v.table[w]? = some p := by
  cases known with
  | top => exact ⟨_, proper.root, proper.rootPath⟩
  | child _ link => exact link.2

theorem Known.table (proper : v.Proper) (known : v.Known D p) (watched : v.watch D = some w) :
    v.table[w]? = some p := by
  obtain ⟨w', watched', path⟩ := known.watched proper
  cases watched.symm.trans watched'
  exact path

/-- What is at a child of a path is an entry of what is at the path. -/
theorem At.child_iff : v.At D (child p n) ↔ ∃ P, v.At P p ∧ v.Entry P p n D :=
  PathSystem.chain_child_iff (s := paths)

theorem At.nil_iff : v.At D [] ↔ D = v.root := PathSystem.chain_origin_iff (s := paths)

theorem At.there (here : v.At D p) :
    D = v.root ∨ ∃ (P : Nat) (n : Name), (v.dirs P)[n]? = some (DirEntry.dir D) := by
  cases here with
  | top => exact .inl rfl
  | child _ link => exact .inr ⟨_, _, link.2⟩

/-- Above a directory there are directories. -/
theorem At.up (here : v.At D p) (inside : Inside p q) : ∃ A, v.At A q :=
  PathSystem.Chain.up here inside

theorem At.valid (here : v.At D p) : p = [] ∨ isValidPath p = true := by
  cases here with
  | top => exact .inl rfl
  | child _ link => exact .inr link.1

theorem find_nil : v.find [] = some (.dir v.root) := by
  rw [find, components_nil, List.foldl_nil]

/-- A path is found one name at a time. -/
theorem find_child (dir : Bytes) (name : Name) :
    v.find (child dir name) = v.step (v.find dir) name := by
  rw [find, components_child, List.foldl_append]
  rfl

theorem step_eq_some_iff {node : Option (DirEntry κ)} {there : DirEntry κ} :
    v.step node n = some there ↔ ∃ P, node = some (.dir P) ∧ (v.dirs P)[n]? = some there := by
  cases node with
  | none => exact iff_of_false (Option.some_ne_none _).symm fun ⟨_, none_, _⟩ => by cases none_
  | some node =>
    cases node with
    | file content writers =>
      exact iff_of_false (Option.some_ne_none _).symm fun ⟨_, file, _⟩ => by cases file
    | dir inode =>
      constructor
      · exact fun found => ⟨inode, rfl, found⟩
      · rintro ⟨P, eq, found⟩
        cases eq
        exact found

/-- What a path is resolved to is the directory at it. -/
theorem find_iff (valid : p = [] ∨ isValidPath p = true) (D : Nat) :
    v.find p = some (.dir D) ↔ v.At D p := by
  revert D
  refine path_induction (motive := fun p => ∀ D, v.find p = some (.dir D) ↔ v.At D p) ?_ ?_ p valid
  · intro D
    rw [find_nil, At.nil_iff, Option.some.injEq, DirEntry.dir.injEq, eq_comm]
  · intro dir name valid _ ih D
    rw [find_child, step_eq_some_iff, At.child_iff]
    refine exists_congr fun P => and_congr (ih P) ?_
    exact (and_iff_right valid).symm

/-- On the way to a clean directory no event waits. -/
theorem Clean.quiet (clean : v.Clean Q q) (here : v.At R r) (inside : Inside q (child r n)) :
    v.Quiet R n := by
  obtain ⟨A, B, above, link⟩ := PathSystem.Chain.through (s := paths) clean inside
  cases (Clean.known above).at.unique here
  exact link.2

theorem Doomed.inside (doomed : v.Doomed q) (inside : Inside p q) : v.Doomed p := by
  obtain ⟨R, r, n, w, kind, known, watched, leaves, pending, below⟩ := doomed
  exact ⟨R, r, n, w, kind, known, watched, leaves, pending, PathSystem.Inside.trans inside below⟩

theorem Announced.inside (announced : v.Announced q) (inside : Inside p q) : v.Announced p := by
  obtain ⟨R, r, n, w, kind, clean, watched, pending, below⟩ := announced
  exact ⟨R, r, n, w, kind, clean, watched, pending, PathSystem.Inside.trans inside below⟩

end View

/-! ## What holds of every view -/

namespace Task

/-- What the task is still going to look at. -/
def Covers (q : Bytes) : Task → Prop
  | .visit path => Inside q path
  | .list path => ∃ n, Inside q (child path n)
  | .scan path names => ∃ n ∈ names, Inside q (child path n)
  | .report | .started => False

/-- The directory the task comes from is known, or an event waits that it is gone. -/
def Based (v : View κ) : Task → Prop
  | .visit path => ∃ p n, path = child p n ∧ isValidPath path = true ∧ v.Based p
  | .list path | .scan path _ => (path = [] ∨ isValidPath path = true) ∧ v.Based path
  | .report | .started => True

end Task

/-- With the tasks that are left. An entry of the table belongs to a directory that
is where the table says, or an event will remove it; a directory below one that is up
to date is known, or a task leads to it, or an event waits. -/
structure Inv (v : View κ) (todo : List Task) : Prop where
  proper : v.Proper
  arrives : ∀ {P : Nat} {n : Name} {D w : Nat} {kind : Kind},
    (v.dirs P)[n]? = some (DirEntry.dir D) → v.watch P = some w →
      (news w n v.pend).getLast? = some kind → ¬kind.leaves
  valid : ∀ {w : Nat} {p : Bytes}, v.table[w]? = some p → w ≠ v.rootWd → isValidPath p = true
  stale : ∀ {w : Nat} {t : Bytes}, v.table[w]? = some t → w ≠ v.rootWd →
    (∃ D, v.watch D = some w ∧ v.Known D t) ∨ v.Doomed t
  tasks : ∀ task ∈ todo, task.Based v
  covered : ∀ {P : Nat} {p : Bytes} {n : Name} {D : Nat}, v.Clean P p → v.Entry P p n D →
    v.Quiet P n → (∃ w, v.watch D = some w ∧ v.table[w]? = some (child p n)) ∨
      ∃ task ∈ todo, task.Covers (child p n)

variable {v : View κ} {todo : List Task}

/-- A directory is up to date, or announced, or a task is left that leads to it. -/
theorem Inv.clean_or (inv : Inv v todo) (here : v.At D p) :
    v.Clean D p ∨ v.Announced p ∨ ∃ task ∈ todo, ∃ q, task.Covers q := by
  rcases PathSystem.Chain.broken (s := paths) here v.Settled with
    clean | ⟨P, q, n, E, -, (clean : v.Clean P q), entry, unsettled, inside⟩
  · exact .inl clean
  · obtain ⟨w, watched, -⟩ := clean.known.watched inv.proper
    by_cases quiet : v.Quiet P n
    · rcases inv.covered clean entry quiet with linked | ⟨task, mem, covers⟩
      · exact absurd ⟨⟨entry, linked⟩, quiet⟩ unsettled
      · exact .inr (.inr ⟨task, mem, _, covers⟩)
    · have news_ : news w n v.pend ≠ [] := by
        intro none_
        refine quiet fun w' watched' => ?_
        cases watched.symm.trans watched'
        exact none_
      obtain ⟨kind, pending⟩ := List.exists_mem_of_ne_nil _ news_
      exact .inr (.inl ⟨P, q, n, w, kind, clean, watched, pending, inside⟩)

/-- The table has the path of a clean directory under its own watch only, but for what
an event will remove. -/
theorem Inv.watch_of_table (inv : Inv v todo) (clean : v.Clean Q q)
    (path : v.table[w]? = some q) : v.watch Q = some w := by
  by_cases top : w = v.rootWd
  · subst top
    have nil := Option.some.inj (path.symm.trans inv.proper.rootPath)
    subst nil
    rw [View.At.nil_iff.mp clean.known.at]
    exact inv.proper.root
  · rcases inv.stale path top with ⟨D, watched, known⟩ | ⟨R, r, n, w', kind, known, watched, -,
      pending, inside⟩
    · cases known.at.unique clean.known.at
      exact watched
    · rw [clean.quiet known.at inside w' watched] at pending
      cases pending

/-! ## Programs at work -/

def State.after (s : State κ) (kernel : Kernel Name κ) : State κ := { s with kernel }

section Program

variable {s : State κ} {k' : Kernel Name κ} {o : Outcome Name κ}
  (sound : Sound s.root s.kernel) (applied : Applied s.kernel k' o)
include applied

/-- What the kernel does leaves the events there are. -/
theorem news_mono (pending : kind ∈ news w n s.view.pend) :
    kind ∈ news w n (s.after k').view.pend := by
  rw [mem_news_iff] at pending ⊢
  rcases List.mem_append.mp pending with early | late
  · exact List.mem_append_left _ early
  · exact List.mem_append_right _ (applied.pending late)

/-- The kernel adds no watches of its own. -/
theorem watch_back (watched : (s.after k').view.watch D = some w) : s.view.watch D = some w := by
  have eq : (s.after k').view.watch D = _ := applied.watch D
  rw [watched] at eq
  split at eq
  · cases eq
  · exact eq.symm

/-- A watched directory is told of its entries. -/
theorem news_of_notice (mem : .entry P kind true n ∈ o.notices)
    (watched : s.view.watch P = some w) :
    kind ∈ news w n (s.after k').view.pend :=
  mem_news_iff.mpr (List.mem_append_right _ (applied.pending_of_notice mem watched))

/-- An entry of which no news waits afterwards was there before, without news. -/
theorem entry_of_quiet_after (watched : s.view.watch P = some w)
    (quiet : news w n (s.after k').view.pend = []) :
    (∀ D, (k'.dirs P)[n]? = some (.dir D) ↔ (s.view.dirs P)[n]? = some (.dir D)) ∧
      news w n s.view.pend = [] := by
  constructor
  · intro D
    rw [applied.dirs]
    refine dir_iff_of_quiet applied.does fun kind mem => ?_
    have pending := news_of_notice applied mem watched
    rw [quiet] at pending
    cases pending
  · refine List.eq_nil_iff_forall_not_mem.mpr fun kind mem => ?_
    have pending := news_mono applied mem
    rw [quiet] at pending
    cases pending

include sound

/-- A directory that stays keeps its watch. -/
theorem watch_kept (there : D = s.root ∨
    ∃ (P : Nat) (n : Name), (k'.dirs P)[n]? = some (DirEntry.dir D)) :
    (s.after k').view.watch D = s.view.watch D := by
  rcases there with top | ⟨P, n, entry⟩
  · exact applied.watch_of_there sound (.inl top)
  · exact applied.watch_of_there sound (.inr ⟨P, n, entry⟩)

variable (proper : s.view.Proper)
include proper

/-- A directory that is known stays known, or an event says it has left. -/
theorem known_after (known : s.view.Known D t) :
    (s.after k').view.Known D t ∨ (s.after k').view.Doomed t := by
  rcases PathSystem.Chain.broken (s := paths) known (s.after k').view.Linked with
    kept | ⟨P, q, n, E, (old : s.view.Known P q), (new : (s.after k').view.Known P q), link, fails,
      inside⟩
  · exact .inl kept
  · obtain ⟨w, watched, -⟩ := old.watched proper
    obtain ⟨⟨valid, entry⟩, wd, watchedE, path⟩ := link
    by_cases still : (k'.dirs P)[n]? = some (.dir E)
    · have watchedE' := (watch_kept sound applied (.inr ⟨P, n, still⟩)).trans watchedE
      exact absurd ⟨⟨valid, still⟩, wd, watchedE', path⟩ fails
    · rw [applied.dirs] at still
      obtain ⟨kind, leaves, mem⟩ := notice_of_left applied.does entry still
      have watched' := (watch_kept sound applied new.at.there).trans watched
      exact .inr ⟨P, q, n, w, kind, new, watched', leaves,
        news_of_notice applied mem watched, inside⟩

theorem doomed_after (doomed : s.view.Doomed t) : (s.after k').view.Doomed t := by
  obtain ⟨R, r, n, w, kind, known, watched, leaves, pending, inside⟩ := doomed
  rcases known_after sound applied proper known with known | doomed
  · have watched' := (watch_kept sound applied known.at.there).trans watched
    exact ⟨R, r, n, w, kind, known, watched', leaves, news_mono applied pending, inside⟩
  · exact doomed.inside (Inside.of_child inside)

theorem based_after (based : s.view.Based q) : (s.after k').view.Based q := by
  rcases based with ⟨Q, known⟩ | doomed
  · exact (known_after sound applied proper known).imp_left fun known => ⟨Q, known⟩
  · exact .inr (doomed_after sound applied proper doomed)

/-- A place that is clean after a call was clean before. -/
theorem clean_back (clean : (s.after k').view.Clean D p) : s.view.Clean D p := by
  rcases PathSystem.Chain.broken (s := paths) clean s.view.Settled with
    kept | ⟨P, q, n, E, (new : (s.after k').view.Clean P q), (old : s.view.Clean P q),
      link, fails, -⟩
  · exact kept
  · obtain ⟨w, watched, -⟩ := old.known.watched proper
    have watched' := (watch_kept sound applied new.known.at.there).trans watched
    obtain ⟨⟨⟨valid, entry⟩, wd, watchedE, path⟩, quiet⟩ := link
    obtain ⟨same, still⟩ := entry_of_quiet_after applied watched (quiet w watched')
    refine absurd ⟨⟨⟨valid, (same E).mp entry⟩, wd, watch_back applied watchedE, path⟩, ?_⟩ fails
    intro w' other
    cases watched.symm.trans other
    exact still

/-- A clean place stays clean, or an event about it is on the way. -/
theorem clean_after (clean : s.view.Clean D p) :
    (s.after k').view.Clean D p ∨ (s.after k').view.Announced p := by
  rcases PathSystem.Chain.broken (s := paths) clean (s.after k').view.Settled with
    kept | ⟨P, q, n, E, (old : s.view.Clean P q), (new : (s.after k').view.Clean P q), link, fails,
      inside⟩
  · exact .inl kept
  · obtain ⟨w, watched, -⟩ := old.known.watched proper
    have watched' := (watch_kept sound applied new.known.at.there).trans watched
    obtain ⟨⟨⟨valid, entry⟩, wd, watchedE, path⟩, -⟩ := link
    by_cases quiet : news w n (s.after k').view.pend = []
    · obtain ⟨same, -⟩ := entry_of_quiet_after applied watched quiet
      have entry' := (same E).mpr entry
      have watchedE' := (watch_kept sound applied (.inr ⟨P, n, entry'⟩)).trans watchedE
      refine absurd ⟨⟨⟨valid, entry'⟩, wd, watchedE', path⟩, fun w' other => ?_⟩ fails
      cases watched'.symm.trans other
      exact quiet
    · obtain ⟨kind, pending⟩ := List.exists_mem_of_ne_nil _ quiet
      exact .inr ⟨P, q, n, w, kind, new, watched', pending, inside⟩

/-- What programs do keeps the view in order, and changes nothing about the tasks. -/
theorem Inv.program (inv : Inv s.view todo) : Inv (s.after k').view todo := by
  have sound' := applied.sound sound
  constructor
  · refine ⟨fun P n entry => (sound'.forest.below entry).2 rfl, sound'.forest.once,
      sound'.apart, ?_, proper.rootPath⟩
    exact (watch_kept sound applied (.inl rfl)).trans proper.root
  · intro P n D w kind entry watched last
    have before := watch_back applied watched
    change (k'.dirs P)[n]? = some (.dir D) at entry
    rw [applied.dirs] at entry
    have eq := applied.last n s.buffer before
    change (news w n (s.buffer ++ k'.queue)).getLast? = some kind at last
    rw [eq, Option.or_eq_some_iff] at last
    rcases last with told | ⟨untold, last⟩
    · exact last_notice applied.does entry told
    · refine inv.arrives ((dir_iff_of_quiet applied.does fun kind mem => ?_).mp entry)
        before last
      have about := List.mem_filterMap.mpr ⟨_, mem, Notice.about_eq_some_iff.mpr rfl⟩
      rw [List.getLast?_eq_none_iff.mp untold] at about
      cases about
  · exact inv.valid
  · intro w t path top
    rcases inv.stale path top with ⟨D, watched, known⟩ | doomed
    · rcases known_after sound applied proper known with known' | doomed
      · exact .inl ⟨D, (watch_kept sound applied known'.at.there).trans watched, known'⟩
      · exact .inr doomed
    · exact .inr (doomed_after sound applied proper doomed)
  · intro task mem
    have based := inv.tasks task mem
    cases task with
    | visit path =>
      obtain ⟨p, n, eq, valid, based⟩ := based
      exact ⟨p, n, eq, valid, based_after sound applied proper based⟩
    | list path => exact based.imp_right (based_after sound applied proper)
    | scan path names => exact based.imp_right (based_after sound applied proper)
    | report => trivial
    | started => trivial
  · intro P p n D clean entry quiet
    obtain ⟨w, watched, -⟩ := (clean_back sound applied proper clean).known.watched proper
    have watched' := (watch_kept sound applied clean.known.at.there).trans watched
    obtain ⟨same, still⟩ := entry_of_quiet_after applied watched (quiet w watched')
    have quiet' : s.view.Quiet P n := by
      intro w' other
      cases watched.symm.trans other
      exact still
    rcases inv.covered (clean_back sound applied proper clean) ⟨entry.1, (same D).mp entry.2⟩
      quiet' with ⟨wd, watchedD, path⟩ | covered
    · exact .inl ⟨wd, (watch_kept sound applied (.inr ⟨P, n, entry.2⟩)).trans watchedD, path⟩
    · exact .inr covered

end Program

/-! ## Tasks -/

def State.visited (s : State κ) (path : Bytes) (D : Nat) : State κ :=
  { s with
    kernel := (s.kernel.addWatch D).2
    dirs := s.dirs.insert (s.kernel.addWatch D).1 path }

section Visit

variable {s : State κ} {path : Bytes} (sound : Sound s.root s.kernel) (proper : s.view.Proper)
  (here : s.view.At D path) (filled : path ≠ [])

theorem entry_visited : (s.visited path D).view.Entry = s.view.Entry := by
  have same : (s.visited path D).view.dirs = s.view.dirs := (s.kernel.addWatch_frame D).1
  unfold View.Entry
  rw [same]

theorem pend_visited : (s.visited path D).view.pend = s.view.pend :=
  congrArg (s.buffer ++ ·) (s.kernel.addWatch_frame D).2.1

theorem watch_mono (watched : s.view.watch P = some w) :
    (s.visited path D).view.watch P = some w := by
  by_cases same : P = D
  · subst same
    have eq : (s.kernel.addWatch P).1 = w := by
      rcases s.kernel.addWatch_cases P with ⟨old, -⟩ | ⟨free, -⟩
      · exact Option.some.inj (old.symm.trans watched)
      · cases free.symm.trans watched
    exact (s.kernel.addWatch_watch P).trans (congrArg some eq)
  · exact ((s.kernel.addWatch_frame D).2.2.2 P same).trans watched

/-- Only the directory's own watch has got another path. -/
theorem table_visited (other : w ≠ (s.kernel.addWatch D).1) :
    (s.visited path D).view.table[w]? = s.view.table[w]? :=
  (Map.getElem?_insert ..).trans (if_neg other)

theorem table_visited_self :
    (s.visited path D).view.table[(s.kernel.addWatch D).1]? = some path :=
  (Map.getElem?_insert ..).trans (if_pos rfl)

include sound

theorem watch_visited_iff : (s.visited path D).view.watch P = some (s.kernel.addWatch D).1 ↔
    P = D := by
  constructor
  · intro watched
    by_contra other
    have before := (s.kernel.addWatch_frame D).2.2.2 P other
    rcases s.kernel.addWatch_cases D with ⟨old, -⟩ | ⟨-, new, -⟩
    · exact other (sound.apart (before.symm.trans watched) old)
    · have low := (sound.watched (before.symm.trans watched)).2
      rw [new] at low
      exact absurd low (Nat.lt_irrefl _)
  · rintro rfl
    exact s.kernel.addWatch_watch P

/-- A visit adds or renews the watch of one directory. -/
theorem watch_visited (watched : (s.visited path D).view.watch P = some w) :
    P = D ∧ w = (s.kernel.addWatch D).1 ∨
      w ≠ (s.kernel.addWatch D).1 ∧ s.view.watch P = some w := by
  by_cases same : P = D
  · subst same
    exact .inl ⟨rfl, Option.some.inj (watched.symm.trans (s.kernel.addWatch_watch P))⟩
  · refine .inr ⟨?_, ((s.kernel.addWatch_frame D).2.2.2 P same).symm.trans watched⟩
    rintro rfl
    exact same ((watch_visited_iff sound).mp watched)

include proper here

/-- What was known stays known when another directory is visited. -/
theorem known_visited (known : s.view.Known P p) : (s.visited path D).view.Known P p := by
  rcases PathSystem.Chain.broken (s := paths) known (s.visited path D).view.Linked with
    kept | ⟨Q, q, n, E, (old : s.view.Known Q q), -, ⟨entry, w, watched, table⟩, fails, -⟩
  · exact kept
  · refine absurd ⟨by rwa [entry_visited], w, watch_mono watched, ?_⟩ fails
    have watched' : (s.visited path D).view.watch E = some w := watch_mono watched
    by_cases own : w = (s.kernel.addWatch D).1
    · subst own
      cases (watch_visited_iff sound).mp watched'
      have place := View.At.place proper (View.At.child_iff.mpr ⟨Q, old.at, entry⟩) here
      rw [table_visited_self, place]
    · rw [table_visited own, table]

theorem doomed_visited (doomed : s.view.Doomed t) : (s.visited path D).view.Doomed t := by
  obtain ⟨R, r, n, w, kind, known, watched, leaves, pending, inside⟩ := doomed
  refine ⟨R, r, n, w, kind, known_visited sound proper here known, watch_mono watched, leaves, ?_,
    inside⟩
  rwa [pend_visited]

theorem based_visited (based : s.view.Based q) : (s.visited path D).view.Based q :=
  based.imp (fun ⟨Q, known⟩ => ⟨Q, known_visited sound proper here known⟩)
    (doomed_visited sound proper here)

/-- The tasks left are still based on what there is. -/
theorem task_visited {task : Task} (based : task.Based s.view) :
    task.Based (s.visited path D).view := by
  cases task with
  | visit path =>
    obtain ⟨p, n, eq, valid, based⟩ := based
    exact ⟨p, n, eq, valid, based_visited sound proper here based⟩
  | list path => exact based.imp_right (based_visited sound proper here)
  | scan path names => exact based.imp_right (based_visited sound proper here)
  | report => trivial
  | started => trivial

/-- What has become clean is at the visited path or below it. -/
theorem clean_visited (clean : (s.visited path D).view.Clean P p) :
    s.view.Clean P p ∨ Inside p path := by
  rcases PathSystem.Chain.broken (s := paths) clean s.view.Settled with
    kept | ⟨Q, q, n, E, -, (old : s.view.Clean Q q), ⟨⟨entry, w, watched, table⟩, quiet⟩, fails,
      inside⟩
  · exact .inl kept
  · rw [entry_visited] at entry
    rcases watch_visited sound watched with ⟨rfl, -⟩ | ⟨other, before⟩
    · have place := View.At.place proper (View.At.child_iff.mpr ⟨Q, old.known.at, entry⟩) here
      rw [← place]
      exact .inr inside
    · rw [table_visited other] at table
      refine absurd ⟨⟨entry, w, before, table⟩, fun w' watched' => ?_⟩ fails
      have still := quiet w' (watch_mono watched')
      rwa [pend_visited] at still

omit here in
/-- After `inotify_add_watch`, what is below the directory is still to be listed. -/
theorem Inv.visit {rest : List Task} (inv : Inv s.view (.visit path :: rest))
    (here : s.view.At D path) (unused : ∀ n, news s.kernel.nextWd n s.view.pend = []) :
    Inv (s.visited path D).view (.list path :: rest) := by
  obtain ⟨p₀, n₀, rfl, validPath, based⟩ := inv.tasks _ List.mem_cons_self
  have below : s.view.root ≠ D := by
    rintro rfl
    exact child_ne_nil p₀ n₀ (View.At.place proper here (View.At.nil_iff.mpr rfl))
  have rootWd : s.view.rootWd ≠ (s.kernel.addWatch D).1 := by
    intro eq
    have watched : (s.visited (child p₀ n₀) D).view.watch s.view.root = some s.view.rootWd :=
      watch_mono proper.root
    exact below ((watch_visited_iff sound).mp (eq ▸ watched))
  have listed : (∃ Q, (s.visited (child p₀ n₀) D).view.Known Q (child p₀ n₀) ∧ Q = D) ∨
      (s.visited (child p₀ n₀) D).view.Doomed (child p₀ n₀) := by
    rcases based with ⟨P₀, known⟩ | doomed
    · obtain ⟨P, above, entry⟩ := View.At.child_iff.mp here
      cases above.unique known.at
      refine .inl ⟨D, PathSystem.Chain.child (known_visited sound proper here known) ⟨?_, _,
        s.kernel.addWatch_watch D, table_visited_self⟩, rfl⟩
      rwa [entry_visited]
    · exact .inr (doomed_visited sound proper here (doomed.inside (.under n₀ (.here p₀))))
  have dirs : (s.visited (child p₀ n₀) D).view.dirs = s.view.dirs := (s.kernel.addWatch_frame D).1
  constructor
  · refine ⟨dirs ▸ proper.top, dirs ▸ proper.once, fun one two => ?_, watch_mono proper.root,
      (table_visited rootWd).trans proper.rootPath⟩
    rcases watch_visited sound one with ⟨rfl, rfl⟩ | ⟨other, one⟩
    · exact ((watch_visited_iff sound).mp two).symm
    · rcases watch_visited sound two with ⟨-, eq⟩ | ⟨-, two⟩
      · exact absurd eq other
      · exact proper.apart one two
  · intro P n C w kind entry watched last
    rw [dirs] at entry
    rw [pend_visited] at last
    rcases watch_visited sound watched with ⟨rfl, rfl⟩ | ⟨-, before⟩
    · rcases s.kernel.addWatch_cases P with ⟨old, -⟩ | ⟨-, new, -⟩
      · exact inv.arrives entry old last
      · rw [new, unused n] at last
        cases last
    · exact inv.arrives entry before last
  · intro w p table top
    by_cases own : w = (s.kernel.addWatch D).1
    · rw [own, table_visited_self] at table
      cases table
      exact validPath
    · rw [table_visited own] at table
      exact inv.valid table top
  · intro w t table top
    by_cases own : w = (s.kernel.addWatch D).1
    · rw [own, table_visited_self] at table
      cases table
      refine listed.imp_left ?_
      rintro ⟨Q, known, rfl⟩
      exact ⟨Q, own ▸ s.kernel.addWatch_watch Q, known⟩
    · rw [table_visited own] at table
      rcases inv.stale table top with ⟨C, watched, known⟩ | doomed
      · exact .inl ⟨C, watch_mono watched, known_visited sound proper here known⟩
      · exact .inr (doomed_visited sound proper here doomed)
  · intro task mem
    rcases List.mem_cons.mp mem with rfl | mem
    · exact ⟨.inr validPath, listed.imp_left fun ⟨Q, known, _⟩ => ⟨Q, known⟩⟩
    · exact task_visited sound proper here (inv.tasks task (List.mem_cons_of_mem _ mem))
  · intro P p n C clean entry quiet
    rw [entry_visited] at entry
    have quiet' : s.view.Quiet P n := by
      intro w watched
      have still := quiet w (watch_mono watched)
      rwa [pend_visited] at still
    by_cases inside : Inside p (child p₀ n₀)
    · -- Below the visited directory everything is still to be listed.
      refine .inr ⟨_, List.mem_cons_self, ?_⟩
      rcases inside.next with rfl | ⟨m, deeper⟩
      · exact ⟨n, .here _⟩
      · exact ⟨m, .under n deeper⟩
    · have before := (clean_visited sound proper here clean).resolve_right inside
      have linked : child p n = child p₀ n₀ → ∃ w,
          (s.visited (child p₀ n₀) D).view.watch C = some w ∧
            (s.visited (child p₀ n₀) D).view.table[w]? = some (child p n) := by
        intro same
        have there : s.view.At C (child p n) := View.At.child_iff.mpr ⟨P, before.known.at, entry⟩
        rw [same] at there ⊢
        cases there.unique here
        exact ⟨_, s.kernel.addWatch_watch D, table_visited_self⟩
      rcases inv.covered before entry quiet' with ⟨w, watched, table⟩ | ⟨task, mem, covers⟩
      · by_cases own : w = (s.kernel.addWatch D).1
        · have watched' : (s.visited (child p₀ n₀) D).view.watch C = some w := watch_mono watched
          have same : C = D := (watch_visited_iff sound).mp (own ▸ watched')
          subst same
          exact .inl (linked (View.At.place proper
            (View.At.child_iff.mpr ⟨P, before.known.at, entry⟩) here))
        · exact .inl ⟨w, watch_mono watched, (table_visited own).trans table⟩
      · rcases List.mem_cons.mp mem with rfl | mem
        · rcases inside_child_iff.mp covers with same | above
          · exact .inl (linked same)
          · exact absurd above inside
        · exact .inr ⟨task, List.mem_cons_of_mem _ mem, covers⟩

end Visit

/-- Tasks may be replaced by others that lead to the same directories. -/
theorem Inv.retask {todo' : List Task} (inv : Inv v todo) (based : ∀ task ∈ todo', task.Based v)
    (covers : ∀ C q, v.At C q → (∃ task ∈ todo, task.Covers q) → ∃ task ∈ todo', task.Covers q) :
    Inv v todo' := by
  refine ⟨inv.proper, inv.arrives, inv.valid, inv.stale, based, fun clean entry quiet => ?_⟩
  exact (inv.covered clean entry quiet).imp_right
    (covers _ _ (View.At.child_iff.mpr ⟨_, clean.known.at, entry⟩))

/-- A task that leads to no directory may be dropped. -/
theorem Inv.skip {task : Task} {rest : List Task} (inv : Inv v (task :: rest))
    (nothing : ∀ C q, v.At C q → ¬task.Covers q) : Inv v rest := by
  refine inv.retask (fun task mem => inv.tasks task (List.mem_cons_of_mem _ mem)) ?_
  rintro C q here ⟨task', mem, covers⟩
  rcases List.mem_cons.mp mem with rfl | mem
  · exact absurd covers (nothing C q here)
  · exact ⟨task', mem, covers⟩

/-- The head of the tasks may be replaced. -/
theorem Inv.replace {task : Task} {rest : List Task} (inv : Inv v (task :: rest))
    (front : List Task) (based : ∀ task ∈ front, task.Based v)
    (covers : ∀ C q, v.At C q → task.Covers q → ∃ task ∈ front, task.Covers q) :
    Inv v (front ++ rest) := by
  refine inv.retask (fun task mem => ?_) ?_
  · rcases List.mem_append.mp mem with new | old
    · exact based task new
    · exact inv.tasks task (List.mem_cons_of_mem _ old)
  · rintro C q here ⟨task', mem, covered⟩
    rcases List.mem_cons.mp mem with rfl | mem
    · obtain ⟨task, mem, covers⟩ := covers C q here covered
      exact ⟨task, List.mem_append_left _ mem, covers⟩
    · exact ⟨task', List.mem_append_right _ mem, covered⟩

/-! ## Events -/

section Pop

variable {event : Event Name} {events : List (Event Name)} (pend : v.pend = event :: events)
include pend

theorem news_pop (w : Nat) (n : Name) :
    news w n v.pend = (event.about w n).toList ++ news w n events := by
  rw [pend, news_cons]

/-- What was said, unless by the first event, is still said. -/
theorem mem_news_pop (mem : kind ∈ news w n v.pend) :
    event = .entry w kind true n ∨ kind ∈ news w n events := by
  rw [news_pop pend] at mem
  rcases List.mem_append.mp mem with first | later
  · exact .inl (Event.about_eq_some_iff.mp (Option.mem_toList.mp first))
  · exact .inr later

/-- A clean place stays clean when an event is taken from the queue. -/
theorem clean_pop (clean : v.Clean P p) : View.Clean { v with pend := events } P p := by
  refine PathSystem.Chain.mono (fun Q q n E link => ⟨link.1, fun w watched => ?_⟩) clean
  have quiet := link.2 w watched
  rw [news_pop pend] at quiet
  exact (List.append_eq_nil_iff.mp quiet).2

/-- What becomes clean is below what the first event was about. -/
theorem clean_of_pop (proper : v.Proper) (clean : View.Clean { v with pend := events } P p) :
    v.Clean P p ∨ ∃ R r n E w kind, v.Clean R r ∧ v.watch R = some w ∧
      event = .entry w kind true n ∧ v.Entry R r n E ∧ news w n events = [] ∧
        Inside p (child r n) := by
  rcases PathSystem.Chain.broken (s := paths) clean v.Settled with
    kept | ⟨R, r, n, E, -, (old : v.Clean R r), link, fails, inside⟩
  · exact .inl kept
  · obtain ⟨w, watched, -⟩ := old.known.watched proper
    have quiet : news w n events = [] := link.2 w watched
    have noisy : news w n v.pend ≠ [] := by
      intro none_
      refine fails ⟨link.1, fun w' watched' => ?_⟩
      cases watched.symm.trans watched'
      exact none_
    obtain ⟨kind, mem⟩ := List.exists_mem_of_ne_nil _ noisy
    rcases mem_news_pop pend mem with rfl | later
    · exact .inr ⟨R, r, n, E, w, kind, old, watched, rfl, link.1.1, quiet, inside⟩
    · rw [quiet] at later
      cases later

/-- A path that is doomed without the event was doomed, or the event was what doomed it. -/
theorem doomed_pop (doomed : v.Doomed t) : View.Doomed { v with pend := events } t ∨
    ∃ R r n w kind, v.Known R r ∧ v.watch R = some w ∧ event = .entry w kind true n ∧
      kind.leaves ∧ Inside t (child r n) := by
  obtain ⟨R, r, n, w, kind, known, watched, leaves, pending, inside⟩ := doomed
  rcases mem_news_pop pend pending with first | later
  · exact .inr ⟨R, r, n, w, kind, known, watched, first, leaves, inside⟩
  · exact .inl ⟨R, r, n, w, kind, known, watched, leaves, later, inside⟩

theorem last_pop (last : (news w n events).getLast? = some kind) :
    (news w n v.pend).getLast? = some kind := by
  rw [news_pop pend, List.getLast?_append, last]
  rfl

/-- An event that does not make a directory leave, and whose path is visited if it has
a valid one. -/
theorem Inv.pop {todo : List Task} (inv : Inv v [])
    (handled : ∀ {R r n w kind}, v.Known R r → v.watch R = some w → event = .entry w kind true n →
      isValidPath (child r n) = true → ¬kind.leaves ∧ .visit (child r n) ∈ todo)
    (based : ∀ task ∈ todo, task.Based { v with pend := events }) :
    Inv { v with pend := events } todo := by
  have proper := inv.proper
  refine ⟨⟨proper.top, proper.once, proper.apart, proper.root, proper.rootPath⟩, ?_, inv.valid, ?_,
    based, ?_⟩
  · exact fun entry watched last => inv.arrives entry watched (last_pop pend last)
  · intro w t table top
    rcases inv.stale table top with known | doomed
    · exact .inl known
    · rcases doomed_pop pend doomed with still | ⟨R, r, n, w', kind, known, watched, eq,
        leaves, inside⟩
      · exact .inr still
      · have valid := PathSystem.Inside.valid_child inside (inv.valid table top)
        exact absurd leaves (handled known watched eq valid).1
  · intro P p n D clean entry quiet
    rcases clean_of_pop pend proper clean with
      before | ⟨R, r, m, E, w, kind, known, watched, eq, link, -, inside⟩
    · obtain ⟨w, watched, -⟩ := before.known.watched proper
      by_cases still : news w n v.pend = []
      · have quiet' : v.Quiet P n := by
          intro w' watched'
          cases watched.symm.trans watched'
          exact still
        rcases inv.covered before entry quiet' with linked | ⟨task, mem, -⟩
        · exact .inl linked
        · cases mem
      · obtain ⟨kind, mem⟩ := List.exists_mem_of_ne_nil _ still
        rcases mem_news_pop pend mem with eq | later
        · exact .inr ⟨_, (handled before.known watched eq entry.1).2, .here _⟩
        · have quiet := quiet w watched
          change news w n events = [] at quiet
          rw [quiet] at later
          cases later
    · exact .inr ⟨_, (handled known.known watched eq link.1).2, .under n inside⟩

end Pop

/-! ## Directories that left -/

/-- The watches that `unwatch_tree` removes. -/
def State.Drops (s : State κ) (relativeDir : Bytes) (w : Nat) : Prop :=
  ∃ path, s.dirs[w]? = some path ∧ w ≠ s.rootWd ∧ isInside path relativeDir = true

def State.without (s : State κ) (kernel : Kernel Name κ) (dirs : ExtTreeMap Nat Bytes) : State κ :=
  { s with kernel, dirs }

/-- The view while an event is not handled. -/
def View.before (v : View κ) (event : Event Name) : View κ := { v with pend := event :: v.pend }

/-- The watches in `gone` are removed, in the kernel and in the table. -/
structure Unwatched (s s' : State κ) (gone : Nat → Prop) : Prop where
  frame : s' = s.without s'.kernel s'.dirs
  sound : Sound s.root s'.kernel
  dirs : s'.kernel.dirs = s.kernel.dirs
  nextWd : s'.kernel.nextWd = s.kernel.nextWd
  kept : s'.kernel.lost = false → s.kernel.lost = false
  table : ∀ w, ¬gone w → s'.dirs[w]? = s.dirs[w]?
  erased : ∀ w, gone w → s'.dirs[w]? = none
  watch : ∀ D w, s'.kernel.watch D = some w ↔ s.kernel.watch D = some w ∧ ¬gone w
  pend : s'.kernel.lost = false → ∀ event, event ∈ s'.view.pend ↔ event ∈ s.view.pend ∨
    ∃ w, event = .ignored w ∧ gone w ∧ ∃ D, s.kernel.watch D = some w
  last : s'.kernel.lost = false → ∀ w n,
    (news w n s'.view.pend).getLast? = (news w n s.view.pend).getLast?

namespace Unwatched

variable {s s₁ s₂ : State κ} {gone gone₁ gone₂ : Nat → Prop}

theorem refl (sound : Sound s.root s.kernel) (none_ : ∀ w, ¬gone w) : Unwatched s s gone where
  frame := rfl
  sound := sound
  dirs := rfl
  nextWd := rfl
  kept := id
  table _ _ := rfl
  erased w here := absurd here (none_ w)
  watch _ w := (and_iff_left (none_ w)).symm
  pend _ _ := (or_iff_left fun ⟨w, _, here, _⟩ => none_ w here).symm
  last _ _ _ := rfl

theorem trans (one : Unwatched s s₁ gone₁) (two : Unwatched s₁ s₂ gone₂) :
    Unwatched s s₂ fun w => gone₁ w ∨ gone₂ w where
  frame := by
    rw [two.frame, one.frame]
    rfl
  sound := by
    have root : s₁.root = s.root := by
      rw [one.frame]
      rfl
    exact root ▸ two.sound
  dirs := two.dirs.trans one.dirs
  nextWd := two.nextWd.trans one.nextWd
  kept lost := one.kept (two.kept lost)
  table w still := (two.table w (not_or.mp still).2).trans (one.table w (not_or.mp still).1)
  erased w here := by
    by_cases later : gone₂ w
    · exact two.erased w later
    · exact (two.table w later).trans (one.erased w (here.resolve_right later))
  watch D w := by rw [two.watch, one.watch, not_or, and_assoc]
  pend lost event := by
    rw [two.pend lost, one.pend (two.kept lost), or_assoc]
    refine or_congr_right ?_
    constructor
    · rintro (⟨w, eq, here, D, watched⟩ | ⟨w, eq, here, D, watched⟩)
      · exact ⟨w, eq, .inl here, D, watched⟩
      · exact ⟨w, eq, .inr here, D, ((one.watch D w).mp watched).1⟩
    · rintro ⟨w, eq, here, D, watched⟩
      by_cases early : gone₁ w
      · exact .inl ⟨w, eq, early, D, watched⟩
      · exact .inr ⟨w, eq, here.resolve_left early, D, (one.watch D w).mpr ⟨watched, early⟩⟩
  last lost w n := (two.last lost w n).trans (one.last (two.kept lost) w n)

end Unwatched

/-- One call of `inotify_rm_watch` removes one watch and its entry in the table. -/
theorem unwatched_unwatch {s : State κ} (sound : Sound s.root s.kernel) (relativeDir : Bytes)
    (entry : Nat × Bytes) : Unwatched s (s.unwatch relativeDir entry) fun w =>
      w = entry.1 ∧ entry.1 ≠ s.rootWd ∧ isInside entry.2 relativeDir = true := by
  unfold State.unwatch
  split
  · rename_i drop
    obtain ⟨dirs, -, nextWd⟩ := Kernel.rmWatch_frame sound entry.1
    have pending := Kernel.rmWatch_queue sound entry.1
    refine ⟨rfl, sound.rmWatch entry.1, dirs, nextWd, fun lost => (pending lost).1,
      fun w still => ?_, fun w here => ?_, fun D w => ?_, fun lost event => ?_, fun lost w n => ?_⟩
    · exact (Map.getElem?_erase ..).trans (if_neg fun eq => still ⟨eq, drop⟩)
    · exact (Map.getElem?_erase ..).trans (if_pos here.1)
    · dsimp only
      rw [Kernel.rmWatch_watch sound]
      split
      · rename_i watched
        refine iff_of_false (Option.some_ne_none _).symm fun both => both.2 ⟨?_, drop⟩
        exact Option.some.inj (both.1.symm.trans watched)
      · rename_i other
        refine (and_iff_left_of_imp fun watched => ?_).symm
        rintro ⟨rfl, -⟩
        exact other watched
    · dsimp only [State.view]
      rw [List.mem_append, (pending lost).2.1, List.mem_append, or_assoc]
      refine or_congr_right (or_congr_right ?_)
      constructor
      · rintro ⟨rfl, watched⟩
        exact ⟨entry.1, rfl, ⟨rfl, drop⟩, watched⟩
      · rintro ⟨w, rfl, ⟨rfl, -⟩, watched⟩
        exact ⟨rfl, watched⟩
    · exact (pending lost).2.2 w n s.buffer
  · rename_i stays
    exact .refl sound fun w here => stays here.2

/-- The loop of `unwatch_tree` removes those it is given. -/
theorem unwatched_fold {s : State κ} (sound : Sound s.root s.kernel) (relativeDir : Bytes)
    (entries : List (Nat × Bytes)) :
    Unwatched s (entries.foldl (fun s entry => s.unwatch relativeDir entry) s) fun w =>
      ∃ path, (w, path) ∈ entries ∧ w ≠ s.rootWd ∧ isInside path relativeDir = true := by
  induction entries generalizing s with
  | nil => exact .refl sound fun w ⟨path, mem, _⟩ => List.not_mem_nil mem
  | cons entry entries ih =>
    have first := unwatched_unwatch sound relativeDir entry
    have root : (s.unwatch relativeDir entry).root = s.root := by
      rw [first.frame]
      rfl
    have rootWd : (s.unwatch relativeDir entry).rootWd = s.rootWd := by
      rw [first.frame]
      rfl
    have both := first.trans (ih (root ▸ first.sound))
    refine (congrArg (Unwatched s _) (funext fun w => propext ?_)).mp both
    rw [rootWd]
    constructor
    · rintro (⟨rfl, top, inside⟩ | ⟨path, mem, rest⟩)
      · exact ⟨entry.2, List.mem_cons_self, top, inside⟩
      · exact ⟨path, List.mem_cons_of_mem _ mem, rest⟩
    · rintro ⟨path, mem, top, inside⟩
      rcases List.mem_cons.mp mem with rfl | mem
      · exact .inl ⟨rfl, top, inside⟩
      · exact .inr ⟨path, mem, top, inside⟩

/-- `unwatch_tree` removes the watches at and below a directory, the top's apart. -/
theorem unwatched_unwatchTree {s : State κ} (sound : Sound s.root s.kernel) (relativeDir : Bytes) :
    Unwatched s (s.unwatchTree relativeDir) (s.Drops relativeDir) := by
  have fold := unwatched_fold sound relativeDir s.dirs.toList
  refine (congrArg (Unwatched s _) (funext fun w => propext ?_)).mp fold
  exact exists_congr fun path => and_congr Map.mem_toList_iff Iff.rfl

section Remove

variable {s s' : State κ}
  (inv : Inv (s.view.before (.entry w kind true n)) [])
  (path : s.view.table[w]? = some t)
  (removed : Unwatched s s' (s.Drops (child t n)))
include inv

theorem gone_iff (table : s.view.table[P]? = some q) :
    s.Drops (child t n) P ↔ P ≠ s.rootWd ∧ Inside q (child t n) := by
  constructor
  · rintro ⟨path, table', top, inside⟩
    cases table.symm.trans table'
    exact ⟨top, (isInside_iff (.inr (inv.valid table top)) (child_ne_nil t n)).mp inside⟩
  · rintro ⟨top, inside⟩
    exact ⟨q, table, top, (isInside_iff (.inr (inv.valid table top)) (child_ne_nil t n)).mpr inside⟩

include removed

/-- A watch elsewhere stays. -/
theorem kept_watch (outside : ¬Inside q (child t n)) (table : s.view.table[P]? = some q)
    (watched : s.view.watch D = some P) :
    s'.kernel.watch D = some P ∧ s'.dirs[P]? = some q := by
  have stays := mt (gone_iff inv table).mp fun both => outside both.2
  exact ⟨(removed.watch D P).mpr ⟨watched, stays⟩, (removed.table P stays).trans table⟩

/-- A directory outside stays known. -/
theorem known_removed (known : s.view.Known D q) (outside : ¬Inside q (child t n)) :
    (s.without s'.kernel s'.dirs).view.Known D q := by
  rcases PathSystem.Chain.broken (s := paths) known
      ((s.without s'.kernel s'.dirs).view.Linked) with
    kept | ⟨Q, r, m, E, -, -, ⟨⟨valid, entry⟩, wd, watched, table⟩, fails, inside⟩
  · exact kept
  · have apart : ¬Inside (child r m) (child t n) := fun deeper =>
      outside (PathSystem.Inside.trans inside deeper)
    have still := kept_watch inv removed apart table watched
    have entry' : (s'.kernel.dirs Q)[m]? = some (.dir E) := by rwa [removed.dirs]
    exact absurd ⟨⟨valid, entry'⟩, wd, still⟩ fails

include path

theorem doomed_removed (lost : s'.kernel.lost = false)
    (doomed : (s.view.before (.entry w kind true n)).Doomed q)
    (outside : ¬Inside q (child t n)) :
    (s.without s'.kernel s'.dirs).view.Doomed q := by
  obtain ⟨R, r, m, wR, kind', known, watched, leaves, pending, inside⟩ := doomed
  have table := View.Known.table inv.proper known watched
  have apart : ¬Inside r (child t n) := fun deeper =>
    outside (PathSystem.Inside.trans (Inside.of_child inside) deeper)
  rcases mem_news_pop rfl pending with first | later
  · cases first
    cases path.symm.trans table
    exact absurd inside outside
  · refine ⟨R, r, m, wR, kind', known_removed inv removed known apart,
      (kept_watch inv removed apart table watched).1, leaves, ?_, inside⟩
    have still := (removed.pend lost _).mpr (.inl (mem_news_iff.mp later))
    rw [removed.frame] at still
    exact mem_news_iff.mpr still

/-- **Once the watches below a directory that left are removed, the view is in order.** -/
theorem Inv.remove (leaves : kind.leaves) (lost : s'.kernel.lost = false) :
    Inv s'.view [.report] := by
  have proper := inv.proper
  rw [removed.frame]
  have dirs : ∀ (P : Nat) (m : Name), (s'.kernel.dirs P)[m]? = (s.view.dirs P)[m]? := by
    intro P m
    rw [removed.dirs]
    rfl
  have news_eq : ∀ (w' : Nat) (m : Name), (news w' m (s.buffer ++ s'.kernel.queue)).getLast? =
      (news w' m s.view.pend).getLast? := by
    intro w' m
    have last := removed.last lost w' m
    rwa [removed.frame] at last
  have stays : ∀ {P : Nat} {q : Bytes}, s'.dirs[P]? = some q →
      s.view.table[P]? = some q ∧ (P ≠ s.rootWd → ¬Inside q (child t n)) ∧
        ∀ D, s'.kernel.watch D = some P ↔ s.kernel.watch D = some P := by
    intro P q table
    by_cases here : s.Drops (child t n) P
    · rw [removed.erased P here] at table
      cases table
    · have before : s.view.table[P]? = some q := (removed.table P here).symm.trans table
      refine ⟨before, fun top inside => here ((gone_iff inv before).mpr ⟨top, inside⟩), fun D => ?_⟩
      rw [removed.watch]
      exact and_iff_left here
  have proper' : (s.without s'.kernel s'.dirs).view.Proper := by
    have root : ¬s.Drops (child t n) s.rootWd := fun ⟨_, _, top, _⟩ => top rfl
    refine ⟨fun P m entry => ?_, fun one two => ?_, removed.sound.apart, ?_, ?_⟩
    · exact (removed.sound.forest.below entry).2 rfl
    · exact removed.sound.forest.once one two
    · exact (removed.watch _ _).mpr ⟨proper.root, root⟩
    · exact (removed.table _ root).trans proper.rootPath
  -- A directory that is there is not what the event was about.
  have never : ∀ {P : Nat} {m : Name} {E : Nat} {w' : Nat}, (s.view.dirs P)[m]? = some (.dir E) →
      s.view.watch P = some w' → news w' m s.view.pend = [] →
        news w' m (.entry w kind true n :: s.view.pend) = [] := by
    intro P m E w' entry watched quiet
    refine List.eq_nil_iff_forall_not_mem.mpr fun kind' mem => ?_
    rcases mem_news_pop (v := s.view.before (.entry w kind true n)) rfl mem with
      first | later
    · cases first
      refine inv.arrives entry watched ?_ leaves
      change (news w n (.entry w kind true n :: s.view.pend)).getLast? = some kind
      rw [news_cons, quiet, Event.about_eq_some_iff.mpr rfl]
      rfl
    · rw [quiet] at later
      cases later
  have quiet_back : ∀ {P : Nat} {p : Bytes} {m : Name} {E : Nat},
      (s.without s'.kernel s'.dirs).view.Known P p →
        (s'.kernel.dirs P)[m]? = some (.dir E) →
          (s.without s'.kernel s'.dirs).view.Quiet P m →
            (s.view.before (.entry w kind true n)).Quiet P m := by
    intro P p m E known entry quiet w' watched
    obtain ⟨w'', watched', -⟩ := known.watched proper'
    cases watched.symm.trans ((removed.watch P w'').mp watched').1
    have none_ : (news w' m s.view.pend).getLast? = none := by
      rw [← news_eq]
      exact List.getLast?_eq_none_iff.mpr (quiet w' watched')
    exact never ((dirs P m).symm.trans entry) watched (List.getLast?_eq_none_iff.mp none_)
  have clean_back : ∀ {P : Nat} {p : Bytes},
      (s.without s'.kernel s'.dirs).view.Clean P p →
        (s.view.before (.entry w kind true n)).Clean P p := by
    intro P p clean
    rcases PathSystem.Chain.broken (s := paths) clean
        ((s.view.before (.entry w kind true n)).Settled) with
      kept | ⟨Q, q, m, E, new, -, ⟨⟨⟨valid, entry⟩, wE, watched, table⟩, quiet⟩, fails, -⟩
    · exact kept
    · have before := stays table
      refine absurd ⟨⟨⟨valid, ?_⟩, wE, (before.2.2 E).mp watched, before.1⟩, ?_⟩ fails
      · exact (dirs Q m).symm.trans entry
      · exact quiet_back (View.Clean.known new) entry quiet
  refine ⟨proper', ?_, ?_, ?_, ?_, ?_⟩
  · intro P m D w' kind' entry watched last
    change (news w' m (s.buffer ++ s'.kernel.queue)).getLast? = some kind' at last
    rw [news_eq] at last
    exact inv.arrives ((dirs P m).symm.trans entry) ((removed.watch P w').mp watched).1
      (last_pop rfl last)
  · exact fun table top => inv.valid (stays table).1 top
  · intro w' q table top
    obtain ⟨before, outside, watch⟩ := stays table
    rcases inv.stale before top with ⟨D, watched, known⟩ | doomed
    · exact .inl ⟨D, (watch D).mpr watched, known_removed inv removed known (outside top)⟩
    · exact .inr (doomed_removed inv path removed lost doomed (outside top))
  · intro task mem
    cases List.mem_singleton.mp mem
    trivial
  · intro P p m C clean entry quiet
    have before := clean_back clean
    have entry' : View.Entry s.view P p m C := ⟨entry.1, (dirs P m).symm.trans entry.2⟩
    have quiet' := quiet_back clean.known entry.2 quiet
    rcases inv.covered before entry' quiet' with ⟨wC, watched, table⟩ | ⟨task, mem, -⟩
    · have still : ¬Inside (child p m) (child t n) → s'.kernel.watch C = some wC ∧
          s'.dirs[wC]? = some (child p m) := fun outside =>
            kept_watch inv removed outside table watched
      refine .inl ⟨wC, still fun inside => ?_⟩
      -- The event is about a directory on the way, by its watch: it would still wait.
      have whole : (s.view.before (.entry w kind true n)).Clean C
          (child p m) := .child before ⟨⟨entry', wC, watched, table⟩, quiet'⟩
      obtain ⟨A, B, above, link⟩ := PathSystem.Chain.through (s := paths) whole inside
      have own : news w n (.entry w kind true n :: s.view.pend) = [] :=
        link.2 w (inv.watch_of_table above path)
      have mem : kind ∈ news w n (.entry w kind true n :: s.view.pend) :=
        mem_news_iff.mpr List.mem_cons_self
      rw [own] at mem
      cases mem
    · cases mem

end Remove

end SisOp.Watcher
