import SisOp.Lib.Run

/-!
# Threads, mutexes and condition variables

A program is a graph of instructions: a point of it is where a thread is, and each
instruction is one step. A thread that waits on a condition variable looks at what it
waits for while it holds the mutex, and only in a later step releases it and sleeps; it
may be woken for no reason, or because its time is over.

`Fits` says which mutexes are held at each point, and that they are taken in the order of
their ranks. `Pays` says from where on a thread owes a wakeup, because a reason for which
others wait no longer has become true, and that it takes the mutex in between.

Main results: `holder_moves`, while a mutex is held a thread that holds it or one of a higher
rank can move; `stuck_cases`, when no thread can move each has ended, waits for the end of
another, or sleeps without a time limit; `Owed.run`, those that sleep although there is a
reason to go on are about to be woken; `not_due_of_stuck`, when no thread can move there is
none; and `moves_le`, threads with fewer steps before them after each make only so many moves.
-/

namespace Lib.Monitors

open Function

/-! ## Programs -/

/-- An action on the data shared by the threads depends on an input; `tryLock` goes on
elsewhere when the mutex is taken. -/
inductive Instr (τ σ π μ κ α : Type) where
  | act (f : σ → α → Option (σ × π))
  | lock (m : μ) (next : π)
  | tryLock (m : μ) (taken busy : π)
  | unlock (m : μ) (next : π)
  | wait (c : κ) (ready : σ → Bool) (timed : Bool) (next : π)
  | notify (c : κ) (next : π)
  | join (t : τ) (next : π)
  | halt

/-- Each condition variable is used with one mutex. -/
structure Program (τ σ π μ κ α : Type) where
  code : π → Instr τ σ π μ κ α
  guard : κ → μ

/-- A thread that waits has found nothing and still holds the mutex, sleeps, or was woken
and takes the mutex again; its time is over, or it looks once more. -/
inductive Status (π : Type) where
  | running (p : π)
  | drowsy (p : π)
  | asleep (p : π)
  | woken (p : π) (expired : Bool)

structure State (τ σ π μ : Type) where
  data : σ
  holder : μ → Option τ
  status : τ → Status π

/-- A thread goes on, its time is over, or it is woken for no reason. -/
inductive Move (α : Type) where
  | go (a : α)
  | expire
  | rouse

section Step

variable {τ σ π μ κ α : Type} [DecidableEq τ] [DecidableEq μ] [DecidableEq κ]
  (P : Program τ σ π μ κ α)

namespace Program

/-- The condition variable waited on at a point. -/
def waitsOn (p : π) : Option κ :=
  match P.code p with
  | .wait c _ _ _ => some c
  | _ => none

def ended : Status π → Bool
  | .running p =>
    match P.code p with
    | .halt => true
    | _ => false
  | _ => false

/-- `notify_all`. -/
def wake (c : κ) : Status π → Status π
  | .asleep p => if P.waitsOn p = some c then .woken p false else .asleep p
  | status => status

end Program

namespace State

def enter (s : State τ σ π μ) (t : τ) (status : Status π) : State τ σ π μ :=
  { s with status := update s.status t status }

def take (s : State τ σ π μ) (m : μ) (t : τ) : State τ σ π μ :=
  { s with holder := update s.holder m (some t) }

def release (s : State τ σ π μ) (m : μ) : State τ σ π μ :=
  { s with holder := update s.holder m none }

end State

/-- The next step of a running thread. -/
def exec (s : State τ σ π μ) (t : τ) (a : α) (p : π) : Option (State τ σ π μ) :=
  match P.code p with
  | .act f =>
    match f s.data a with
    | some (data, q) => some ({ s with data }.enter t (.running q))
    | none => none
  | .lock m q => if s.holder m = none then some ((s.take m t).enter t (.running q)) else none
  | .tryLock m q r =>
    if s.holder m = none then some ((s.take m t).enter t (.running q))
    else some (s.enter t (.running r))
  | .unlock m q => some ((s.release m).enter t (.running q))
  | .wait _ ready _ q => some (s.enter t (if ready s.data then .running q else .drowsy p))
  | .notify c q => some ({ s with status := P.wake c ∘ s.status }.enter t (.running q))
  | .join u q => if P.ended (s.status u) then some (s.enter t (.running q)) else none
  | .halt => none

def step (s : State τ σ π μ) : τ × Move α → Option (State τ σ π μ)
  | (t, .go a) =>
    match s.status t with
    | .running p => exec P s t a p
    | .drowsy p =>
      match P.waitsOn p with
      | some c => some ((s.release (P.guard c)).enter t (.asleep p))
      | none => none
    | .asleep _ => none
    | .woken p expired =>
      match P.code p with
      | .wait c _ _ q =>
        if s.holder (P.guard c) = none then
          some ((s.take (P.guard c) t).enter t (.running (if expired then q else p)))
        else none
      | _ => none
  | (t, .expire) =>
    match s.status t with
    | .asleep p =>
      match P.code p with
      | .wait _ _ true _ => some (s.enter t (.woken p true))
      | _ => none
    | _ => none
  | (t, .rouse) =>
    match s.status t with
    | .asleep p => some (s.enter t (.woken p false))
    | _ => none

/-- All threads at their first points, no mutex taken. -/
def init (data : σ) (entry : τ → π) : State τ σ π μ :=
  ⟨data, fun _ => none, fun t => .running (entry t)⟩

/-- The thread can go on without being woken. -/
def CanMove (s : State τ σ π μ) (t : τ) : Prop :=
  (∃ a s', step P s (t, .go a) = some s') ∨ ∃ s', step P s (t, .expire) = some s'

end Step

/-- Where a thread is. -/
def Status.point {π : Type} : Status π → π
  | .running p | .drowsy p | .asleep p | .woken p _ => p

/-! ## Who holds what -/

section Held

variable {τ σ π μ κ α : Type} [DecidableEq τ] [DecidableEq μ] [DecidableEq κ]
  {P : Program τ σ π μ κ α} {rank : μ → ℕ} {holds : π → List μ} {s s' : State τ σ π μ} {t : τ}
  {status : Status π} {m : μ}

variable (P rank holds) in
/-- The mutexes held at a point fit its instruction: they are taken in the order of their
ranks and released in the opposite order, and only the one that goes with the condition
variable is held where a thread waits without a time limit. -/
def Fits (p : π) : Prop :=
  match P.code p with
  | .act f => ∀ d a r, f d a = some r → holds r.2 = holds p
  | .lock m q => holds q = m :: holds p ∧ ∀ m' ∈ holds p, rank m' < rank m
  | .tryLock m q r => holds q = m :: holds p ∧ holds r = holds p ∧ m ∉ holds p
  | .unlock m q => holds p = m :: holds q ∧ m ∉ holds q
  | .wait c _ timed q => holds q = holds p ∧ ∃ rest, holds p = P.guard c :: rest ∧
      (∀ m ∈ rest, rank m < rank (P.guard c)) ∧ (timed = false → rest = [])
  | .notify _ q => holds q = holds p
  | .join _ q => holds p = [] ∧ holds q = []
  | .halt => holds p = []

variable (holds) in
/-- A thread that sleeps has released the last mutex it took. -/
def held : Status π → List μ
  | .running p | .drowsy p => holds p
  | .asleep p | .woken p _ => (holds p).tail

/-- It waits, or did so before it was woken. -/
def Status.waiting : Status π → Option π
  | .running _ => none
  | .drowsy p | .asleep p | .woken p _ => some p

variable (P holds) in
structure Held (s : State τ σ π μ) : Prop where
  holder : ∀ m t, s.holder m = some t ↔ m ∈ held holds (s.status t)
  waits : ∀ t p, (s.status t).waiting = some p →
    ∃ c ready timed q, P.code p = .wait c ready timed q

omit [DecidableEq τ] [DecidableEq μ] [DecidableEq κ] in
theorem Held.init (data : σ) {entry : τ → π} (free : ∀ t, holds (entry t) = []) :
    Held P holds (Monitors.init data entry : State τ σ π μ) where
  holder m t := by
    refine iff_of_false (Option.some_ne_none t ∘ Eq.symm) fun mem => ?_
    rw [show held holds ((Monitors.init data entry : State τ σ π μ).status t) = [] from free t]
      at mem
    cases mem
  waits t p waiting := by cases waiting

omit [DecidableEq μ] [DecidableEq κ] in
/-- One thread goes on, and no other takes or releases a mutex. -/
theorem Held.enter (inv : Held P holds s) {data : σ} {holder : μ → Option τ}
    (own : ∀ m, holder m = some t ↔ m ∈ held holds status)
    (others : ∀ m u, u ≠ t → (holder m = some u ↔ s.holder m = some u))
    (waits : ∀ p, status.waiting = some p → ∃ c ready timed q, P.code p = .wait c ready timed q) :
    Held P holds (⟨data, holder, update s.status t status⟩ : State τ σ π μ) where
  holder m u := by
    dsimp only
    by_cases same : u = t
    · rw [same, update_self]
      exact own m
    · rw [update_of_ne same, others m u same]
      exact inv.holder m u
  waits u p waiting := by
    dsimp only at waiting
    by_cases same : u = t
    · rw [same, update_self] at waiting
      exact waits p waiting
    · rw [update_of_ne same] at waiting
      exact inv.waits u p waiting

omit [DecidableEq μ] [DecidableEq κ] in
theorem Held.stay (inv : Held P holds s) {data : σ}
    (same : held holds status = held holds (s.status t))
    (waits : ∀ p, status.waiting = some p → ∃ c ready timed q, P.code p = .wait c ready timed q) :
    Held P holds (State.enter { s with data } t status) := by
  refine inv.enter (fun m => ?_) (fun _ _ _ => .rfl) waits
  rw [same]
  exact inv.holder m t

omit [DecidableEq κ] in
theorem Held.take (inv : Held P holds s) (free : s.holder m = none)
    (more : held holds status = m :: held holds (s.status t)) (goes : status.waiting = none) :
    Held P holds ((s.take m t).enter t status) := by
  refine inv.enter (fun m' => ?_) (fun m' u other => ?_) fun p waiting => ?_
  · dsimp only [State.take]
    rw [more, update_apply]
    by_cases same : m' = m
    · rw [if_pos same, same]
      exact iff_of_true rfl List.mem_cons_self
    · rw [if_neg same, List.mem_cons, inv.holder m' t]
      exact (or_iff_right same).symm
  · dsimp only [State.take]
    rw [update_apply]
    by_cases same : m' = m
    · rw [if_pos same, same, free]
      exact iff_of_false (fun is => other (Option.some.inj is).symm)
        (Option.some_ne_none u ∘ Eq.symm)
    · rw [if_neg same]
  · cases goes.symm.trans waiting

omit [DecidableEq κ] in
theorem Held.release (inv : Held P holds s)
    (less : held holds (s.status t) = m :: held holds status) (once : m ∉ held holds status)
    (waits : ∀ p, status.waiting = some p → ∃ c ready timed q, P.code p = .wait c ready timed q) :
    Held P holds ((s.release m).enter t status) := by
  have mine : s.holder m = some t := (inv.holder m t).mpr (less ▸ List.mem_cons_self)
  refine inv.enter (fun m' => ?_) (fun m' u other => ?_) waits
  · dsimp only [State.release]
    rw [update_apply]
    by_cases same : m' = m
    · rw [if_pos same, same]
      exact iff_of_false (Option.some_ne_none t ∘ Eq.symm) once
    · rw [if_neg same, inv.holder m' t, less, List.mem_cons]
      exact or_iff_right same
  · dsimp only [State.release]
    rw [update_apply]
    by_cases same : m' = m
    · rw [if_pos same, same, mine]
      exact iff_of_false (Option.some_ne_none u ∘ Eq.symm) fun is => other (Option.some.inj is).symm
    · rw [if_neg same]

omit [DecidableEq τ] [DecidableEq μ] in
theorem held_wake (c : κ) (status : Status π) :
    held holds (P.wake c status) = held holds status := by
  cases status with
  | asleep p =>
    rw [Program.wake]
    split <;> rfl
  | _ => rfl

omit [DecidableEq τ] [DecidableEq μ] in
theorem waiting_wake (c : κ) (status : Status π) : (P.wake c status).waiting = status.waiting := by
  cases status with
  | asleep p =>
    rw [Program.wake]
    split <;> rfl
  | _ => rfl

omit [DecidableEq τ] [DecidableEq μ] in
theorem Held.wake (inv : Held P holds s) (c : κ) :
    Held P holds { s with status := P.wake c ∘ s.status } where
  holder m t := by
    dsimp only [comp]
    rw [held_wake]
    exact inv.holder m t
  waits t p waiting := by
    dsimp only [comp] at waiting
    rw [waiting_wake] at waiting
    exact inv.waits t p waiting

omit [DecidableEq τ] [DecidableEq μ] [DecidableEq κ] in
theorem Fits.at_wait {p q : π} {c : κ} {ready : σ → Bool} {timed : Bool}
    (fits : Fits P rank holds p) (code : P.code p = .wait c ready timed q) :
    holds q = holds p ∧ holds p = P.guard c :: (holds p).tail ∧
      (∀ m ∈ (holds p).tail, rank m < rank (P.guard c)) ∧
        (timed = false → (holds p).tail = []) := by
  rw [Fits, code] at fits
  obtain ⟨same, rest, list, lower, untimed⟩ := fits
  rw [same, list]
  exact ⟨rfl, rfl, lower, untimed⟩

theorem Held.exec (inv : Held P holds s) (fits : ∀ p, Fits P rank holds p) {a : α} {p : π}
    (here : s.status t = .running p) (stepped : exec P s t a p = some s') : Held P holds s' := by
  have fit := fits p
  have now : held holds (s.status t) = holds p := by rw [here]; rfl
  unfold Monitors.exec at stepped
  cases code : P.code p with
  | act f =>
    rw [Fits, code] at fit
    simp only [code] at stepped
    split at stepped <;> cases stepped
    rename_i data q acted
    exact inv.stay ((fit _ _ _ acted).trans now.symm) fun _ is => by cases is
  | lock m q =>
    rw [Fits, code] at fit
    simp only [code] at stepped
    split at stepped <;> cases stepped
    rename_i free
    exact inv.take free (fit.1.trans (congrArg _ now.symm)) rfl
  | tryLock m q r =>
    rw [Fits, code] at fit
    simp only [code] at stepped
    split at stepped <;> cases stepped
    · rename_i free
      exact inv.take free (fit.1.trans (congrArg _ now.symm)) rfl
    · exact inv.stay (fit.2.1.trans now.symm) fun _ is => by cases is
  | unlock m q =>
    rw [Fits, code] at fit
    simp only [code] at stepped
    cases stepped
    exact inv.release (now.trans fit.1) fit.2 fun _ is => by cases is
  | wait c ready timed q =>
    have same := (fit.at_wait code).1
    simp only [code] at stepped
    cases stepped
    split
    · exact inv.stay (same.trans now.symm) fun _ is => by cases is
    · refine inv.stay now.symm ?_
      rintro _ ⟨⟩
      exact ⟨c, ready, timed, q, code⟩
  | notify c q =>
    rw [Fits, code] at fit
    simp only [code] at stepped
    cases stepped
    refine (inv.wake c).stay ?_ fun _ is => by cases is
    dsimp only [comp]
    rw [held_wake, now]
    exact fit
  | join u q =>
    rw [Fits, code] at fit
    simp only [code] at stepped
    split at stepped <;> cases stepped
    exact inv.stay ((fit.2.trans fit.1.symm).trans now.symm) fun _ is => by cases is
  | halt =>
    simp only [code] at stepped
    cases stepped

/-- Each step keeps what is held. -/
theorem Held.step (inv : Held P holds s) (fits : ∀ p, Fits P rank holds p) {move : Move α}
    (stepped : step P s (t, move) = some s') : Held P holds s' := by
  cases move with
  | go a =>
    simp only [Monitors.step] at stepped
    split at stepped
    · rename_i p here
      exact inv.exec fits here stepped
    · rename_i p here
      split at stepped <;> cases stepped
      rename_i c waits
      obtain ⟨c', ready, timed, q, code⟩ := inv.waits t p (by rw [here]; rfl)
      rw [Program.waitsOn, code, Option.some.injEq] at waits
      obtain ⟨-, list, lower, -⟩ := (fits p).at_wait code
      refine inv.release ?_ (fun mem => ?_) ?_
      · rw [here, ← waits]
        exact list
      · exact absurd (lower _ (waits ▸ mem)) (Nat.lt_irrefl _)
      · rintro _ ⟨⟩
        exact ⟨c', ready, timed, q, code⟩
    · cases stepped
    · rename_i p expired here
      split at stepped
      · rename_i c ready timed q code
        split at stepped <;> cases stepped
        rename_i free
        obtain ⟨same, list, -, -⟩ := (fits p).at_wait code
        refine inv.take free ?_ rfl
        rw [here]
        split
        · exact same.trans list
        · exact list
      · cases stepped
  | expire =>
    simp only [Monitors.step] at stepped
    split at stepped
    · rename_i p here
      split at stepped <;> cases stepped
      refine inv.stay (by rw [here]; rfl) ?_
      rintro _ ⟨⟩
      exact inv.waits t p (by rw [here]; rfl)
    · cases stepped
  | rouse =>
    simp only [Monitors.step] at stepped
    split at stepped
    · rename_i p here
      cases stepped
      refine inv.stay (by rw [here]; rfl) ?_
      rintro _ ⟨⟩
      exact inv.waits t p (by rw [here]; rfl)
    · cases stepped

end Held

/-! ## When no thread can move -/

section Stuck

variable {τ σ π μ κ α : Type} [DecidableEq τ] [DecidableEq μ] [DecidableEq κ] [Inhabited α]
  {P : Program τ σ π μ κ α} {rank : μ → ℕ} {holds : π → List μ} {s : State τ σ π μ} {t : τ}

variable (P) in
/-- Each action is done on some input. -/
def Prompt : Prop := ∀ p f, P.code p = .act f → ∀ d, ∃ a r, f d a = some r

variable (P rank holds s t) in
/-- Why a thread cannot move. -/
inductive Blocked : Prop where
  | ended {p : π} (here : s.status t = .running p) (code : P.code p = .halt)
  | joins {p q : π} {u : τ} (here : s.status t = .running p) (code : P.code p = .join u q)
      (alive : P.ended (s.status u) = false)
  | sleeps {p q : π} {c : κ} {ready : σ → Bool} (here : s.status t = .asleep p)
      (code : P.code p = .wait c ready false q)
  | locks {m : μ} (busy : s.holder m ≠ none)
      (next : ∀ m' ∈ held holds (s.status t), rank m' < rank m)

omit [Inhabited α] in
theorem go_or (still : ¬CanMove P s t) (a : α) :
    step P s (t, .go a) = none := by
  cases stepped : step P s (t, .go a) with
  | none => rfl
  | some s' => exact absurd (.inl ⟨a, s', stepped⟩) still

theorem blocked_of_running (fits : ∀ p, Fits P rank holds p) (prompt : Prompt P)
    (still : ¬CanMove P s t) {p : π} (here : s.status t = .running p) :
    Blocked P rank holds s t := by
  have fit := fits p
  have never : ∀ a, exec P s t a p = none := by
    intro a
    have none_ := go_or still a
    simp only [step, here] at none_
    exact none_
  have now : held holds (s.status t) = holds p := by rw [here]; rfl
  cases code : P.code p with
  | act f =>
    obtain ⟨a, r, acted⟩ := prompt p f code s.data
    have none_ := never a
    simp only [exec, code, acted] at none_
    cases none_
  | lock m q =>
    rw [Fits, code] at fit
    have none_ := never default
    simp only [exec, code] at none_
    split at none_
    · cases none_
    · rename_i busy
      exact .locks busy fun m' mem => fit.2 m' (now ▸ mem)
  | tryLock m q r =>
    have none_ := never default
    simp only [exec, code] at none_
    split at none_ <;> cases none_
  | unlock m q =>
    have none_ := never default
    simp only [exec, code] at none_
    cases none_
  | wait c ready timed q =>
    have none_ := never default
    simp only [exec, code] at none_
    cases none_
  | notify c q =>
    have none_ := never default
    simp only [exec, code] at none_
    cases none_
  | join u q =>
    have none_ := never default
    simp only [exec, code] at none_
    split at none_
    · cases none_
    · rename_i alive
      exact .joins here code (Bool.eq_false_iff.mpr alive)
  | halt => exact .ended here code

theorem blocked_of_still (inv : Held P holds s) (fits : ∀ p, Fits P rank holds p)
    (prompt : Prompt P) (still : ¬CanMove P s t) : Blocked P rank holds s t := by
  have never := go_or still default
  cases here : s.status t with
  | running p => exact blocked_of_running fits prompt still here
  | drowsy p =>
    obtain ⟨c, ready, timed, q, code⟩ := inv.waits t p (by rw [here]; rfl)
    simp only [step, here, Program.waitsOn, code] at never
    cases never
  | asleep p =>
    obtain ⟨c, ready, timed, q, code⟩ := inv.waits t p (by rw [here]; rfl)
    cases timed with
    | false => exact .sleeps here code
    | true =>
      refine absurd (.inr ⟨s.enter t (.woken p true), ?_⟩) still
      simp only [step, here, code]
  | woken p expired =>
    obtain ⟨c, ready, timed, q, code⟩ := inv.waits t p (by rw [here]; rfl)
    simp only [step, here, code] at never
    split at never
    · cases never
    · rename_i busy
      refine .locks busy ?_
      rw [here]
      exact ((fits p).at_wait code).2.2.1

/-- Whoever holds a mutex can move, or waits for one of a higher rank. -/
theorem holder_moves (inv : Held P holds s) (fits : ∀ p, Fits P rank holds p)
    (prompt : Prompt P) {top : ℕ} (bounded : ∀ m, rank m ≤ top) {m : μ}
    (holder : s.holder m = some t) :
    ∃ m' u, (m' = m ∧ u = t ∨ rank m < rank m') ∧ s.holder m' = some u ∧ CanMove P s u := by
  have all : ∀ n m t, top < rank m + n → s.holder m = some t →
      ∃ m' u, (m' = m ∧ u = t ∨ rank m < rank m') ∧ s.holder m' = some u ∧ CanMove P s u := by
    intro n
    induction n with
    | zero => exact fun m t high _ => absurd (bounded m) (Nat.not_le.mpr high)
    | succ n ih =>
      intro m t high holder
      by_cases moves : CanMove P s t
      · exact ⟨m, t, .inl ⟨rfl, rfl⟩, holder, moves⟩
      have mem := (inv.holder m t).mp holder
      cases blocked_of_still inv fits prompt moves with
      | @ended p here code =>
        have empty := fits p
        rw [Fits, code] at empty
        rw [here, held, empty] at mem
        cases mem
      | @joins p q u here code =>
        have empty := fits p
        rw [Fits, code] at empty
        rw [here, held, empty.1] at mem
        cases mem
      | sleeps here code =>
        rw [here, held, ((fits _).at_wait code).2.2.2 rfl] at mem
        cases mem
      | @locks m' busy next =>
        have lower := next m mem
        obtain ⟨u, holds'⟩ := Option.ne_none_iff_exists'.mp busy
        obtain ⟨top', v, same | higher, taken, moves⟩ := ih m' u (by omega) holds'
        · exact ⟨top', v, .inr (same.1 ▸ lower), taken, moves⟩
        · exact ⟨top', v, .inr (Nat.lt_trans lower higher), taken, moves⟩
  exact all (top + 1) m t (by omega) holder

theorem free_of_stuck (inv : Held P holds s) (fits : ∀ p, Fits P rank holds p)
    (prompt : Prompt P) {top : ℕ} (bounded : ∀ m, rank m ≤ top)
    (stuck : ∀ t, ¬CanMove P s t) (m : μ) : s.holder m = none := by
  cases holder : s.holder m with
  | none => rfl
  | some t =>
    obtain ⟨-, u, -, -, moves⟩ := holder_moves inv fits prompt bounded holder
    exact absurd moves (stuck u)

/-- When no thread can move, none is stopped by a mutex. -/
theorem stuck_cases (inv : Held P holds s) (fits : ∀ p, Fits P rank holds p)
    (prompt : Prompt P) {top : ℕ} (bounded : ∀ m, rank m ≤ top)
    (stuck : ∀ t, ¬CanMove P s t) (t : τ) :
    P.ended (s.status t) = true ∨
      (∃ p u q, s.status t = .running p ∧ P.code p = .join u q ∧ P.ended (s.status u) = false) ∨
      ∃ p c ready q, s.status t = .asleep p ∧ P.code p = .wait c ready false q := by
  cases blocked_of_still inv fits prompt (stuck t) with
  | ended here code => exact .inl (by rw [here, Program.ended, code])
  | joins here code alive => exact .inr (.inl ⟨_, _, _, here, code, alive⟩)
  | sleeps here code => exact .inr (.inr ⟨_, _, _, _, here, code⟩)
  | locks busy _ => exact absurd (free_of_stuck inv fits prompt bounded stuck _) busy

end Stuck

/-! ## Wakeups owed -/

/-- A thread owes nothing; it has taken the mutex since what others wait for came true, and
has yet to wake them; or it has yet to take the mutex as well. -/
inductive Debt where
  | none | half | full
  deriving DecidableEq

/-- No less is owed. -/
def Debt.le : Debt → Debt → Prop
  | .none, _ => True
  | .half, d => d ≠ .none
  | .full, d => d = .full

instance : DecidableRel Debt.le
  | .none, _ => isTrue trivial
  | .half, d => inferInstanceAs (Decidable (d ≠ .none))
  | .full, d => inferInstanceAs (Decidable (d = .full))

section Pays

variable {τ σ π μ κ α : Type} [DecidableEq τ] [DecidableEq μ] [DecidableEq κ]
  {P : Program τ σ π μ κ α} {rank : μ → ℕ} {holds : π → List μ} {due : π → σ → Bool}
  {debt : κ → π → Debt} {s s' : State τ σ π μ} {t : τ}

variable (P holds due debt) in
/-- What is owed at a point fits its instruction, where `due` is a reason to go on from a
point at which a thread waits. -/
def Pays (p : π) : Prop :=
  match P.code p with
  | .act f => ∀ d a r, f d a = some r → ∀ c, (debt c p).le (debt c r.2) ∧
      ∀ w ready timed q, P.code w = .wait c ready timed q → due w d = false → due w r.1 = true →
        debt c r.2 = .full ∨ debt c r.2 = .half ∧ P.guard c ∈ holds r.2
  | .lock m q => ∀ c, if P.guard c = m then debt c p ≠ .none → debt c q ≠ .none
      else (debt c p).le (debt c q)
  | .tryLock _ q r => ∀ c, (debt c p).le (debt c q) ∧ (debt c p).le (debt c r)
  | .unlock _ q => ∀ c, (debt c p).le (debt c q)
  | .notify c' q => ∀ c, if c = c' then debt c p ≠ .full else (debt c p).le (debt c q)
  | .wait _ ready _ _ => (∀ c, debt c p = .none) ∧ ∀ d, due p d = true → ready d = true
  | .join .. | .halt => ∀ c, debt c p = .none

variable (debt s) in
/-- Some thread has yet to take the mutex and wake those that wait. -/
def Full (c : κ) : Prop := ∃ u p, s.status u = .running p ∧ debt c p = .full

variable (debt s) in
/-- Some thread has yet to wake those that wait. -/
def Owing (c : κ) : Prop := ∃ u p, s.status u = .running p ∧ debt c p ≠ .none

variable (P due debt) in
/-- When there is a reason for a thread to go on, a wakeup is owed to it. -/
structure Owed (s : State τ σ π μ) : Prop where
  drowsy : ∀ t p c ready timed q, s.status t = .drowsy p → P.code p = .wait c ready timed q →
    due p s.data = true → Full debt s c
  asleep : ∀ t p c ready timed q, s.status t = .asleep p → P.code p = .wait c ready timed q →
    due p s.data = true → Owing debt s c

omit [DecidableEq τ] [DecidableEq μ] [DecidableEq κ] in
theorem Full.owing {c : κ} (full : Full debt s c) : Owing debt s c := by
  obtain ⟨u, p, here, owed⟩ := full
  exact ⟨u, p, here, owed ▸ Debt.noConfusion⟩

omit [DecidableEq τ] [DecidableEq μ] [DecidableEq κ] in
theorem Owed.init (data : σ) (entry : τ → π) :
    Owed P due debt (Monitors.init data entry : State τ σ π μ) where
  drowsy := fun _ _ _ _ _ _ is => by cases is
  asleep := fun _ _ _ _ _ _ is => by cases is

theorem Debt.le_refl (d : Debt) : d.le d := by cases d <;> decide

theorem Debt.le_full {d d' : Debt} (le : d.le d') (full : d = .full) : d' = .full := by
  rw [full] at le
  exact le

theorem Debt.le_ne_none {d d' : Debt} (le : d.le d') (some : d ≠ .none) : d' ≠ .none := by
  cases d with
  | none => exact absurd rfl some
  | half => exact le
  | full => exact le ▸ Debt.noConfusion

omit [DecidableEq μ] [DecidableEq κ] in
/-- The others that owe something still do. -/
theorem Full.of_running {p : π} {c : κ} (full : Full debt s c) (here : s.status t = .running p)
    (others : ∀ u q, u ≠ t → s.status u = .running q → s'.status u = .running q)
    (own : debt c p = .full → Full debt s' c) : Full debt s' c := by
  obtain ⟨u, q, running, owed⟩ := full
  by_cases same : u = t
  · rw [same, here] at running
    cases running
    exact own owed
  · exact ⟨u, q, others u q same running, owed⟩

omit [DecidableEq μ] [DecidableEq κ] in
theorem Owing.of_running {p : π} {c : κ} (owing : Owing debt s c) (here : s.status t = .running p)
    (others : ∀ u q, u ≠ t → s.status u = .running q → s'.status u = .running q)
    (own : debt c p ≠ .none → Owing debt s' c) : Owing debt s' c := by
  obtain ⟨u, q, running, owed⟩ := owing
  by_cases same : u = t
  · rw [same, here] at running
    cases running
    exact own owed
  · exact ⟨u, q, others u q same running, owed⟩

omit [DecidableEq τ] [DecidableEq μ] [DecidableEq κ] in
/-- A step that leaves the data as they are. -/
theorem Owed.mono (inv : Owed P due debt s) (data : s'.data = s.data)
    (drowsy : ∀ t p, s'.status t = .drowsy p → s.status t = .drowsy p ∨ due p s.data = false)
    (asleep : ∀ t p, s'.status t = .asleep p → s.status t = .asleep p ∨ s.status t = .drowsy p)
    (full : ∀ t p c ready timed q, s'.status t = .drowsy p → P.code p = .wait c ready timed q →
      Full debt s c → Full debt s' c)
    (owing : ∀ t p c ready timed q, s'.status t = .asleep p → P.code p = .wait c ready timed q →
      Owing debt s c → Owing debt s' c) : Owed P due debt s' where
  drowsy t p c ready timed q here code holds := by
    rw [data] at holds
    rcases drowsy t p here with before | missing
    · exact full t p c ready timed q here code (inv.drowsy t p c ready timed q before code holds)
    · cases holds.symm.trans missing
  asleep t p c ready timed q here code holds := by
    rw [data] at holds
    refine owing t p c ready timed q here code ?_
    rcases asleep t p here with before | before
    · exact inv.asleep t p c ready timed q before code holds
    · exact (inv.drowsy t p c ready timed q before code holds).owing

omit [DecidableEq μ] [DecidableEq κ] in
/-- A running thread goes on, and wakes nobody. -/
theorem Owed.goes (inv : Owed P due debt s) {p : π} {holder : μ → Option τ} {status : Status π}
    (here : s.status t = .running p)
    (goes : ∀ p', status = .drowsy p' → due p' s.data = false)
    (awake : ∀ p', status ≠ .asleep p')
    (full : ∀ u p' c ready timed q, s.status u = .drowsy p' → P.code p' = .wait c ready timed q →
      debt c p = .full → ∃ q, status = .running q ∧ debt c q = .full)
    (owing : ∀ c, debt c p ≠ .none → ∃ q, status = .running q ∧ debt c q ≠ .none) :
    Owed P due debt (⟨s.data, holder, update s.status t status⟩ : State τ σ π μ) := by
  have others : ∀ u q, u ≠ t → s.status u = .running q → update s.status t status u = .running q :=
    fun u q other running => (update_of_ne other ..).trans running
  refine inv.mono rfl (fun u p' drowsy => ?_) (fun u p' asleep => ?_) ?_ ?_
  · rcases update_cases drowsy with ⟨-, same⟩ | ⟨-, same⟩
    · exact .inr (goes p' same)
    · exact .inl same
  · rcases update_cases asleep with ⟨-, same⟩ | ⟨-, same⟩
    · exact absurd same (awake p')
    · exact .inl same
  · intro u p' c ready timed q drowsy code before
    refine before.of_running here others fun owed => ?_
    rcases update_cases drowsy with ⟨-, same⟩ | ⟨-, same⟩
    · -- a thread that goes to sleep owes nothing
      obtain ⟨_, running, -⟩ := owing c (owed ▸ Debt.noConfusion)
      cases same.symm.trans running
    · obtain ⟨q', running, still⟩ := full u p' c ready timed q same code owed
      exact ⟨t, q', (update_self ..).trans running, still⟩
  · intro u p' c ready timed q asleep code before
    refine before.of_running here others fun owed => ?_
    obtain ⟨q', running, still⟩ := owing c owed
    exact ⟨t, q', (update_self ..).trans running, still⟩

omit [DecidableEq τ] [DecidableEq μ] [DecidableEq κ] in
theorem Held.guard_of_drowsy (inv : Held P holds s) (fits : ∀ p, Fits P rank holds p) {p q : π}
    {c : κ} {ready : σ → Bool} {timed : Bool} (drowsy : s.status t = .drowsy p)
    (code : P.code p = .wait c ready timed q) : s.holder (P.guard c) = some t := by
  refine (inv.holder _ t).mpr ?_
  rw [drowsy, held, ((fits p).at_wait code).2.1]
  exact List.mem_cons_self

/-- The data change. -/
theorem Owed.act (inv : Owed P due debt s) (locks : Held P holds s)
    (fits : ∀ p, Fits P rank holds p) {p : π} {f : σ → α → Option (σ × π)}
    (pays : Pays P holds due debt p) (code : P.code p = .act f) (here : s.status t = .running p)
    {a : α} {r : σ × π} (acted : f s.data a = some r) :
    Owed P due debt (State.enter { s with data := r.1 } t (.running r.2)) := by
  rw [Pays, code] at pays
  have before := pays s.data a r acted
  have others : ∀ u q, u ≠ t → s.status u = .running q →
      update s.status t (.running r.2) u = .running q :=
    fun u q other running => (update_of_ne other ..).trans running
  have mine : (State.enter { s with data := r.1 } t (.running r.2)).status t = .running r.2 :=
    update_self ..
  constructor
  · intro u p' c ready timed q drowsy waits there
    rcases update_cases drowsy with ⟨-, same⟩ | ⟨other, same⟩
    · cases same
    cases already : due p' s.data with
    | true =>
      refine (inv.drowsy u p' c ready timed q same waits already).of_running here others ?_
      exact fun owed => ⟨t, r.2, mine, Debt.le_full (before c).1 owed⟩
    | false =>
      rcases (before c).2 p' ready timed q waits already there with full | ⟨-, taken⟩
      · exact ⟨t, r.2, mine, full⟩
      · -- both would hold the mutex
        have first : s.holder (P.guard c) = some t := by
          have fit := fits p
          rw [Fits, code] at fit
          refine (locks.holder _ t).mpr ?_
          rw [here, held, ← fit _ _ _ acted]
          exact taken
        have second : s.holder (P.guard c) = some u := locks.guard_of_drowsy fits same waits
        exact absurd (Option.some.inj (second.symm.trans first)) other
  · intro u p' c ready timed q asleep waits there
    rcases update_cases asleep with ⟨-, same⟩ | ⟨other, same⟩
    · cases same
    cases already : due p' s.data with
    | true =>
      refine (inv.asleep u p' c ready timed q same waits already).of_running here others ?_
      exact fun owed => ⟨t, r.2, mine, Debt.le_ne_none (before c).1 owed⟩
    | false =>
      rcases (before c).2 p' ready timed q waits already there with full | ⟨half, -⟩
      · exact ⟨t, r.2, mine, full ▸ Debt.noConfusion⟩
      · exact ⟨t, r.2, mine, half ▸ Debt.noConfusion⟩

theorem Owed.exec (inv : Owed P due debt s) (locks : Held P holds s)
    (fits : ∀ p, Fits P rank holds p) (pays : ∀ p, Pays P holds due debt p) {a : α} {p : π}
    (here : s.status t = .running p) (stepped : exec P s t a p = some s') :
    Owed P due debt s' := by
  have pay := pays p
  have running : ∀ q p' : π, Status.running q = .drowsy p' → due p' s.data = false :=
    fun q p' is => by cases is
  have awake : ∀ q p' : π, Status.running q ≠ .asleep p' := fun q p' is => by cases is
  unfold Monitors.exec at stepped
  cases code : P.code p with
  | act f =>
    simp only [code] at stepped
    split at stepped <;> cases stepped
    rename_i data q acted
    exact inv.act locks fits pay code here acted
  | lock m q =>
    rw [Pays, code] at pay
    simp only [code] at stepped
    split at stepped <;> cases stepped
    rename_i free
    refine inv.goes here (running q) (awake q) (fun u p' c ready timed r drowsy waits owed => ?_)
      fun c owed => ⟨q, rfl, ?_⟩
    · have taken := locks.guard_of_drowsy fits drowsy waits
      have le := pay c
      rw [if_neg fun same => by rw [same, free] at taken; cases taken] at le
      exact ⟨q, rfl, Debt.le_full le owed⟩
    · have le := pay c
      split at le
      · exact le owed
      · exact Debt.le_ne_none le owed
  | tryLock m q r =>
    rw [Pays, code] at pay
    simp only [code] at stepped
    split at stepped <;> cases stepped
    · exact inv.goes here (running q) (awake q)
        (fun _ _ c _ _ _ _ _ owed => ⟨q, rfl, Debt.le_full (pay c).1 owed⟩)
        fun c owed => ⟨q, rfl, Debt.le_ne_none (pay c).1 owed⟩
    · exact inv.goes here (running r) (awake r)
        (fun _ _ c _ _ _ _ _ owed => ⟨r, rfl, Debt.le_full (pay c).2 owed⟩)
        fun c owed => ⟨r, rfl, Debt.le_ne_none (pay c).2 owed⟩
  | unlock m q =>
    rw [Pays, code] at pay
    simp only [code] at stepped
    cases stepped
    exact inv.goes here (running q) (awake q)
      (fun _ _ c _ _ _ _ _ owed => ⟨q, rfl, Debt.le_full (pay c) owed⟩)
      fun c owed => ⟨q, rfl, Debt.le_ne_none (pay c) owed⟩
  | wait c ready timed q =>
    rw [Pays, code] at pay
    simp only [code] at stepped
    cases stepped
    have nothing : ∀ c, debt c p ≠ .none → False := fun c owed => owed (pay.1 c)
    split
    · exact inv.goes here (running q) (awake q)
        (fun _ _ c _ _ _ _ _ owed => (nothing c (owed ▸ Debt.noConfusion)).elim)
        fun c owed => (nothing c owed).elim
    · rename_i missing
      refine inv.goes here ?_ (fun _ is => by cases is)
        (fun _ _ c _ _ _ _ _ owed => (nothing c (owed ▸ Debt.noConfusion)).elim)
        fun c owed => (nothing c owed).elim
      rintro _ ⟨⟩
      exact Bool.eq_false_iff.mpr fun there => missing (pay.2 _ there)
  | notify c' q =>
    rw [Pays, code] at pay
    simp only [code] at stepped
    cases stepped
    have others : ∀ u r, u ≠ t → s.status u = .running r →
        update (P.wake c' ∘ s.status) t (.running q) u = .running r := by
      intro u r other same
      rw [update_of_ne other, comp, same]
      rfl
    have mine : update (P.wake c' ∘ s.status) t (.running q) t = .running q := update_self ..
    have before : ∀ {u p'}, P.wake c' (s.status u) = .asleep p' →
        s.status u = .asleep p' ∧ P.waitsOn p' ≠ some c' := by
      intro u p' sleeps
      cases status : s.status u with
      | asleep r =>
        rw [status, Program.wake] at sleeps
        split at sleeps <;> cases sleeps
        rename_i waits
        exact ⟨rfl, waits⟩
      | _ =>
        rw [status] at sleeps
        cases sleeps
    have drowsy : ∀ {u p'}, P.wake c' (s.status u) = .drowsy p' → s.status u = .drowsy p' := by
      intro u p' sleeps
      cases status : s.status u with
      | asleep r =>
        rw [status, Program.wake] at sleeps
        split at sleeps <;> cases sleeps
      | _ =>
        rw [status] at sleeps
        exact sleeps
    refine inv.mono rfl (fun u p' is => ?_) (fun u p' is => ?_) ?_ ?_
    · rcases update_cases is with ⟨-, same⟩ | ⟨-, same⟩
      · cases same
      · exact .inl (drowsy same)
    · rcases update_cases is with ⟨-, same⟩ | ⟨-, same⟩
      · cases same
      · exact .inl (before same).1
    · intro u p' c ready timed r is waits full
      refine full.of_running here others fun owed => ?_
      have le := pay c
      split at le
      · exact absurd owed le
      · exact ⟨t, q, mine, Debt.le_full le owed⟩
    · intro u p' c ready timed r is waits owing
      rcases update_cases is with ⟨-, same⟩ | ⟨-, same⟩
      · cases same
      refine owing.of_running here others fun owed => ?_
      have le := pay c
      split at le
      · -- whoever waits for this was woken
        rename_i woken
        refine absurd ?_ (before same).2
        rw [Program.waitsOn, waits, woken]
      · exact ⟨t, q, mine, Debt.le_ne_none le owed⟩
  | join u q =>
    rw [Pays, code] at pay
    simp only [code] at stepped
    split at stepped <;> cases stepped
    have nothing : ∀ c, debt c p ≠ .none → False := fun c owed => owed (pay c)
    exact inv.goes here (running q) (awake q)
      (fun _ _ c _ _ _ _ _ owed => (nothing c (owed ▸ Debt.noConfusion)).elim)
      fun c owed => (nothing c owed).elim
  | halt =>
    simp only [code] at stepped
    cases stepped

omit [DecidableEq μ] [DecidableEq κ] in
/-- A thread that is not running goes on, or sleeps. -/
theorem Owed.rest (inv : Owed P due debt s) {holder : μ → Option τ} {status : Status π}
    (still : ∀ p, s.status t ≠ .running p) (awake : ∀ p, status ≠ .drowsy p)
    (sleeps : ∀ p, status = .asleep p → s.status t = .drowsy p) :
    Owed P due debt (⟨s.data, holder, update s.status t status⟩ : State τ σ π μ) := by
  have others : ∀ u q, s.status u = .running q → update s.status t status u = .running q := by
    intro u q running
    refine (update_of_ne ?_ ..).trans running
    rintro rfl
    exact still q running
  refine inv.mono rfl (fun u p drowsy => ?_) (fun u p asleep => ?_) ?_ ?_
  · rcases update_cases drowsy with ⟨-, same⟩ | ⟨-, same⟩
    · exact absurd same (awake p)
    · exact .inl same
  · rcases update_cases asleep with ⟨here, same⟩ | ⟨-, same⟩
    · exact .inr (here ▸ sleeps p same)
    · exact .inl same
  · rintro - - c - - - - - ⟨u, q, running, owed⟩
    exact ⟨u, q, others u q running, owed⟩
  · rintro - - c - - - - - ⟨u, q, running, owed⟩
    exact ⟨u, q, others u q running, owed⟩

/-- Each step keeps what is owed. -/
theorem Owed.step (inv : Owed P due debt s) (locks : Held P holds s)
    (fits : ∀ p, Fits P rank holds p) (pays : ∀ p, Pays P holds due debt p) {move : Move α}
    (stepped : step P s (t, move) = some s') : Owed P due debt s' := by
  cases move with
  | go a =>
    simp only [Monitors.step] at stepped
    split at stepped
    · rename_i p here
      exact inv.exec locks fits pays here stepped
    · rename_i p here
      split at stepped <;> cases stepped
      refine inv.rest (fun _ is => by cases here.symm.trans is) (fun _ is => by cases is) ?_
      rintro _ ⟨⟩
      exact here
    · cases stepped
    · rename_i p expired here
      split at stepped
      · split at stepped <;> cases stepped
        exact inv.rest (fun _ is => by cases here.symm.trans is) (fun _ is => by cases is)
          fun _ is => by cases is
      · cases stepped
  | expire =>
    simp only [Monitors.step] at stepped
    split at stepped
    · rename_i p here
      split at stepped <;> cases stepped
      exact inv.rest (fun _ is => by cases here.symm.trans is) (fun _ is => by cases is)
        fun _ is => by cases is
    · cases stepped
  | rouse =>
    simp only [Monitors.step] at stepped
    split at stepped
    · rename_i p here
      cases stepped
      exact inv.rest (fun _ is => by cases here.symm.trans is) (fun _ is => by cases is)
        fun _ is => by cases is
    · cases stepped

end Pays

/-! ## Runs -/

section Runs

variable {τ σ π μ κ α : Type} [DecidableEq τ] [DecidableEq μ] [DecidableEq κ]
  {P : Program τ σ π μ κ α} {rank : μ → ℕ} {holds : π → List μ} {due : π → σ → Bool}
  {debt : κ → π → Debt} {s : State τ σ π μ} {data : σ} {entry : τ → π} {moves : List (τ × Move α)}

theorem Held.run (fits : ∀ p, Fits P rank holds p) (free : ∀ t, holds (entry t) = [])
    (ran : run (Monitors.step P) (Monitors.init data entry) moves = some s) : Held P holds s :=
  run_invariant_of_step (fun _ _ _ inv stepped => inv.step fits stepped) (Held.init data free) ran

/-- Whoever sleeps although there is a reason to go on is about to be woken. -/
theorem Owed.run (fits : ∀ p, Fits P rank holds p) (pays : ∀ p, Pays P holds due debt p)
    (free : ∀ t, holds (entry t) = [])
    (ran : run (Monitors.step P) (Monitors.init data entry) moves = some s) :
    Owed P due debt s := by
  have both := run_invariant_of_step (I := fun s => Held P holds s ∧ Owed P due debt s)
    (fun _ _ _ inv stepped => ⟨inv.1.step fits stepped, inv.2.step inv.1 fits pays stepped⟩)
    ⟨Held.init data free, Owed.init data entry⟩ ran
  exact both.2

omit [DecidableEq τ] [DecidableEq μ] [DecidableEq κ] in
/-- Two threads do not hold one mutex. -/
theorem Held.unique (inv : Held P holds s) {m : μ} {t u : τ} (first : m ∈ held holds (s.status t))
    (second : m ∈ held holds (s.status u)) : t = u := by
  have one := (inv.holder m t).mpr first
  exact Option.some.inj (one.symm.trans ((inv.holder m u).mpr second))

omit [DecidableEq τ] [DecidableEq μ] [DecidableEq κ] in
/-- A thread at a point where it does not wait holds what is held there. -/
theorem Held.running (inv : Held P holds s) {p : π} (here : (s.status t).point = p)
    (code : ∀ c ready timed q, P.code p ≠ .wait c ready timed q) : s.status t = .running p := by
  have waits := inv.waits t p
  cases status : s.status t with
  | running r =>
    rw [status] at here
    exact here ▸ rfl
  | _ r =>
    rw [status] at here waits
    cases here
    obtain ⟨c, ready, timed, q, is⟩ := waits rfl
    exact absurd is (code c ready timed q)

/-- When no thread can move, those that sleep have no reason to go on. -/
theorem not_due_of_stuck [Inhabited α] (locks : Held P holds s) (owed : Owed P due debt s)
    (fits : ∀ p, Fits P rank holds p) (pays : ∀ p, Pays P holds due debt p) (prompt : Prompt P)
    {top : ℕ} (bounded : ∀ m, rank m ≤ top) (stuck : ∀ t, ¬CanMove P s t) {t : τ} {p q : π} {c : κ}
    {ready : σ → Bool} {timed : Bool} (asleep : s.status t = .asleep p)
    (code : P.code p = .wait c ready timed q) : due p s.data = false := by
  refine Bool.eq_false_iff.mpr fun there => ?_
  obtain ⟨u, r, running, owes⟩ := owed.asleep t p c ready timed q asleep code there
  have pay := pays r
  cases blocked_of_still locks fits prompt (stuck u) with
  | ended here code =>
    cases running.symm.trans here
    rw [Pays, code] at pay
    exact owes (pay c)
  | joins here code =>
    cases running.symm.trans here
    rw [Pays, code] at pay
    exact owes (pay c)
  | sleeps here code => cases running.symm.trans here
  | locks busy _ => exact busy (free_of_stuck locks fits prompt bounded stuck _)

end Runs

/-! ## Where the threads get, and how far they have to go -/

section Points

variable {τ σ π μ κ α : Type} [DecidableEq τ] [DecidableEq μ] [DecidableEq κ]
  {P : Program τ σ π μ κ α} {s s' : State τ σ π μ} {t : τ} {move : Move α}

abbrev State.point (s : State τ σ π μ) (t : τ) : π := (s.status t).point

variable (P) in
/-- A thread gets from one point to the other without an action. -/
def Goes (p q : π) : Prop :=
  match P.code p with
  | .lock _ r | .unlock _ r | .wait _ _ _ r | .notify _ r | .join _ r => q = r
  | .tryLock _ r r' => q = r ∨ q = r'
  | .act _ | .halt => False

omit [DecidableEq τ] [DecidableEq μ] in
theorem point_wake (c : κ) (status : Status π) : (P.wake c status).point = status.point := by
  cases status with
  | asleep p =>
    rw [Program.wake]
    split <;> rfl
  | _ => rfl

variable (P s s' t move) in
/-- What a step of a thread does: an action, or it stays or gets to the next point. -/
def Moved : Prop :=
  (∃ p f a r, move = .go a ∧ s.status t = .running p ∧ P.code p = .act f ∧
      f s.data a = some r ∧ s'.data = r.1 ∧ s'.point t = r.2) ∨
    s'.data = s.data ∧ (s'.point t = s.point t ∨ Goes P (s.point t) (s'.point t))

omit [DecidableEq μ] [DecidableEq κ] in
theorem point_enter_self (s : State τ σ π μ) (t : τ) (status : Status π) :
    (s.enter t status).point t = status.point := by
  simp only [State.enter, State.point, update_self]

omit [DecidableEq μ] [DecidableEq κ] in
theorem point_enter_of_ne (s : State τ σ π μ) (status : Status π) {u : τ} (apart : u ≠ t) :
    (s.enter t status).point u = s.point u := by
  simp only [State.enter, State.point, update_of_ne apart]

theorem moved_exec {a : α} {p : π} (here : s.status t = .running p)
    (stepped : exec P s t a p = some s') :
    Moved P s s' t (.go a) ∧ ∀ u, u ≠ t → s'.point u = s.point u := by
  have now : s.point t = p := by rw [State.point, here]; rfl
  unfold exec at stepped
  unfold Moved Goes
  rw [now]
  cases code : P.code p with
  | act f =>
    simp only [code] at stepped
    split at stepped <;> cases stepped
    rename_i data q acted
    exact ⟨.inl ⟨p, f, a, (data, q), rfl, here, code, acted, rfl, point_enter_self ..⟩,
      fun u apart => point_enter_of_ne _ _ apart⟩
  | lock m q =>
    simp only [code] at stepped
    split at stepped <;> cases stepped
    exact ⟨.inr ⟨rfl, .inr (point_enter_self ..)⟩, fun u apart => point_enter_of_ne _ _ apart⟩
  | tryLock m q r =>
    simp only [code] at stepped
    split at stepped <;> cases stepped
    · exact ⟨.inr ⟨rfl, .inr (.inl (point_enter_self ..))⟩,
        fun u apart => point_enter_of_ne _ _ apart⟩
    · exact ⟨.inr ⟨rfl, .inr (.inr (point_enter_self ..))⟩,
        fun u apart => point_enter_of_ne _ _ apart⟩
  | unlock m q =>
    simp only [code] at stepped
    cases stepped
    exact ⟨.inr ⟨rfl, .inr (point_enter_self ..)⟩, fun u apart => point_enter_of_ne _ _ apart⟩
  | wait c ready timed q =>
    simp only [code] at stepped
    cases stepped
    refine ⟨.inr ⟨rfl, ?_⟩, fun u apart => point_enter_of_ne _ _ apart⟩
    rw [point_enter_self]
    split
    · exact .inr rfl
    · exact .inl rfl
  | notify c q =>
    simp only [code] at stepped
    cases stepped
    refine ⟨.inr ⟨rfl, .inr (point_enter_self ..)⟩, fun u apart => ?_⟩
    rw [point_enter_of_ne _ _ apart]
    exact point_wake c _
  | join u q =>
    simp only [code] at stepped
    split at stepped <;> cases stepped
    exact ⟨.inr ⟨rfl, .inr (point_enter_self ..)⟩, fun u apart => point_enter_of_ne _ _ apart⟩
  | halt =>
    simp only [code] at stepped
    cases stepped

theorem moved_step (stepped : step P s (t, move) = some s') :
    Moved P s s' t move ∧ ∀ u, u ≠ t → s'.point u = s.point u := by
  cases move with
  | go a =>
    simp only [step] at stepped
    split at stepped
    · rename_i p here
      exact moved_exec here stepped
    · rename_i p here
      split at stepped <;> cases stepped
      refine ⟨.inr ⟨rfl, .inl ?_⟩, fun u apart => point_enter_of_ne _ _ apart⟩
      rw [point_enter_self, State.point, here]
      rfl
    · cases stepped
    · rename_i p expired here
      split at stepped
      · rename_i c ready timed q code
        split at stepped <;> cases stepped
        refine ⟨.inr ⟨rfl, ?_⟩, fun u apart => point_enter_of_ne _ _ apart⟩
        have now : s.point t = p := by rw [State.point, here]; rfl
        rw [point_enter_self, now, Goes, code]
        cases expired
        · exact .inl rfl
        · exact .inr rfl
      · cases stepped
  | expire =>
    simp only [step] at stepped
    split at stepped
    · rename_i p here
      split at stepped <;> cases stepped
      refine ⟨.inr ⟨rfl, .inl ?_⟩, fun u apart => point_enter_of_ne _ _ apart⟩
      rw [point_enter_self, State.point, here]
      rfl
    · cases stepped
  | rouse =>
    simp only [step] at stepped
    split at stepped
    · rename_i p here
      cases stepped
      refine ⟨.inr ⟨rfl, .inl ?_⟩, fun u apart => point_enter_of_ne _ _ apart⟩
      rw [point_enter_self, State.point, here]
      rfl
    · cases stepped

/-- A property of points that the next points have as well. -/
theorem points_step {Q : τ → π → Prop} (goes : ∀ t p q, Q t p → Goes P p q → Q t q)
    (acts : ∀ t p f d a r, Q t p → P.code p = .act f → f d a = some r → Q t r.2)
    (inside : ∀ t, Q t (s.point t)) (stepped : step P s (t, move) = some s') (u : τ) :
    Q u (s'.point u) := by
  obtain ⟨moved, others⟩ := moved_step stepped
  by_cases same : u = t
  · subst same
    rcases moved with ⟨p, f, a, r, -, here, code, acted, -, point⟩ | ⟨-, point | next⟩
    · rw [point]
      have now := inside u
      rw [State.point, here] at now
      exact acts u p f _ a r now code acted
    · rw [point]
      exact inside u
    · exact goes u _ _ (inside u) next
  · rw [others u same]
    exact inside u

/-- It holds wherever a thread gets. -/
theorem points_run {Q : τ → π → Prop} {data : σ} {entry : τ → π} {moves : List (τ × Move α)}
    (goes : ∀ t p q, Q t p → Goes P p q → Q t q)
    (acts : ∀ t p f d a r, Q t p → P.code p = .act f → f d a = some r → Q t r.2)
    (first : ∀ t, Q t (entry t))
    (ran : run (step P) (init data entry) moves = some s) (t : τ) : Q t (s.point t) :=
  run_invariant_of_step (I := fun s => ∀ t, Q t (s.point t))
    (fun _ _ _ inside stepped => points_step goes acts inside stepped) first ran t

variable (P s) in
/-- No wait is over in time but one with a time limit. -/
def Timely : Prop :=
  ∀ t p, s.status t = .woken p true → ∃ c ready q, P.code p = .wait c ready true q

omit [DecidableEq τ] [DecidableEq μ] [DecidableEq κ] in
theorem Timely.init (data : σ) (entry : τ → π) :
    Timely P (Monitors.init data entry : State τ σ π μ) :=
  fun _ _ is => by cases is

theorem Timely.step (inv : Timely P s) (stepped : step P s (t, move) = some s') : Timely P s' := by
  have enters : ∀ {x : State τ σ π μ} {status : Status π}, x.status = s.status →
      (∀ p, status = .woken p true → ∃ c ready q, P.code p = .wait c ready true q) →
      Timely P (x.enter t status) := by
    intro x status same fine u p is
    rcases update_cases is with ⟨-, here⟩ | ⟨-, before⟩
    · exact fine p here
    · exact inv u p (same ▸ before)
  cases move with
  | go a =>
    simp only [Monitors.step] at stepped
    split at stepped
    · unfold exec at stepped
      split at stepped
      · split at stepped <;> cases stepped
        exact enters rfl fun _ is => by cases is
      · split at stepped <;> cases stepped
        exact enters rfl fun _ is => by cases is
      · split at stepped <;> cases stepped <;> exact enters rfl fun _ is => by cases is
      · cases stepped
        exact enters rfl fun _ is => by cases is
      · cases stepped
        refine enters rfl fun _ is => ?_
        split at is <;> cases is
      · cases stepped
        intro u p is
        rcases update_cases is with ⟨-, here⟩ | ⟨-, before⟩
        · cases here
        dsimp only [comp] at before
        cases status : s.status u with
        | asleep q =>
          rw [status, Program.wake] at before
          split at before <;> cases before
        | woken q expired =>
          rw [status] at before
          cases before
          exact inv u p status
        | _ =>
          rw [status] at before
          cases before
      · split at stepped <;> cases stepped
        exact enters rfl fun _ is => by cases is
      · cases stepped
    · split at stepped <;> cases stepped
      exact enters rfl fun _ is => by cases is
    · cases stepped
    · split at stepped
      · split at stepped <;> cases stepped
        exact enters rfl fun _ is => by cases is
      · cases stepped
  | expire =>
    simp only [Monitors.step] at stepped
    split at stepped
    · split at stepped <;> cases stepped
      rename_i c ready q code
      refine enters rfl ?_
      rintro _ ⟨⟩
      exact ⟨c, ready, q, code⟩
    · cases stepped
  | rouse =>
    simp only [Monitors.step] at stepped
    split at stepped
    · cases stepped
      exact enters rfl fun _ is => by cases is
    · cases stepped

/-- Without a time limit, a thread goes on only when what it waits for is there. -/
theorem ready_of_leaves (inv : Timely P s) (stepped : step P s (t, move) = some s') {p q : π}
    {c : κ} {ready : σ → Bool} (here : s.point t = p) (code : P.code p = .wait c ready false q)
    (leaves : s'.point t ≠ p) : ready s.data = true := by
  cases move with
  | go a =>
    simp only [step] at stepped
    split at stepped
    · rename_i r status
      rw [State.point, status] at here
      change r = p at here
      subst here
      simp only [exec, code] at stepped
      cases stepped
      rw [point_enter_self] at leaves
      by_cases there : ready s.data = true
      · exact there
      · rw [if_neg there] at leaves
        exact absurd rfl leaves
    · rename_i r status
      rw [State.point, status] at here
      split at stepped <;> cases stepped
      rw [point_enter_self] at leaves
      exact absurd here leaves
    · cases stepped
    · rename_i r expired status
      rw [State.point, status] at here
      change r = p at here
      subst here
      simp only [code] at stepped
      split at stepped <;> cases stepped
      rw [point_enter_self] at leaves
      cases expired
      · exact absurd rfl leaves
      · obtain ⟨c', ready', q', timed⟩ := inv t _ status
        cases code.symm.trans timed
  | expire =>
    simp only [step] at stepped
    split at stepped
    · rename_i r status
      rw [State.point, status] at here
      split at stepped <;> cases stepped
      rw [point_enter_self] at leaves
      exact absurd here leaves
    · cases stepped
  | rouse =>
    simp only [step] at stepped
    split at stepped
    · rename_i r status
      rw [State.point, status] at here
      cases stepped
      rw [point_enter_self] at leaves
      exact absurd here leaves
    · cases stepped

end Points

section Measure

variable {τ σ π μ κ α : Type} [DecidableEq τ] [DecidableEq μ] [DecidableEq κ]
  {P : Program τ σ π μ κ α} {s s' : State τ σ π μ} {t : τ} {move : Move α}
  {final : σ → Prop} {steps : π → ℕ}

variable (P final steps) in
/-- Once the data are final, each next point has fewer steps before it, and nothing is
waited for. -/
def Sinks (p : π) : Prop :=
  match P.code p with
  | .act f => ∀ d a r, final d → f d a = some r → steps r.2 < steps p
  | .lock _ q | .unlock _ q | .notify _ q | .join _ q => steps q < steps p
  | .tryLock _ q r => steps q < steps p ∧ steps r < steps p
  | .wait _ ready _ q => steps q < steps p ∧ ∀ d, final d → ready d = true
  | .halt => True

omit [DecidableEq τ] [DecidableEq μ] [DecidableEq κ] in
theorem Sinks.mono {p : π} {final' : σ → Prop} (sinks : Sinks P final steps p)
    (imp : ∀ d, final' d → final d) : Sinks P final' steps p := by
  unfold Sinks at sinks ⊢
  cases code : P.code p with
  | act f =>
    rw [code] at sinks
    exact fun d a r now acted => sinks d a r (imp d now) acted
  | wait c ready timed q =>
    rw [code] at sinks
    exact ⟨sinks.1, fun d now => sinks.2 d (imp d now)⟩
  | _ =>
    rw [code] at sinks
    exact sinks

variable (steps) in
/-- The steps a thread can still make. -/
def weight : Status π → ℕ
  | .running p => steps p
  | .woken p _ => steps p + 1
  | .asleep p => steps p + 2
  | .drowsy p => steps p + 3

variable (s steps) in
def total : List τ → ℕ
  | [] => 0
  | t :: group => weight steps (s.status t) + total group

omit [DecidableEq τ] [DecidableEq μ] in
theorem weight_wake (c : κ) (status : Status π) :
    weight steps (P.wake c status) ≤ weight steps status := by
  cases status with
  | asleep p =>
    rw [Program.wake]
    split
    · exact Nat.le_succ _
    · exact Nat.le_refl _
  | _ => exact Nat.le_refl _

omit [DecidableEq μ] [DecidableEq κ] in
theorem weight_enter {x : State τ σ π μ} {status : Status π} (same : x.status t = s.status t)
    (less : weight steps status < weight steps (x.status t)) :
    weight steps ((x.enter t status).status t) < weight steps (s.status t) := by
  simp only [State.enter, update_self]
  exact same ▸ less

theorem weight_exec {a : α} {p : π} (here : s.status t = .running p) (settled : final s.data)
    (sinks : Sinks P final steps p) (stepped : exec P s t a p = some s') :
    weight steps (s'.status t) < weight steps (s.status t) := by
  have goes : ∀ {x : State τ σ π μ} {q : π}, x.status t = s.status t → steps q < steps p →
      weight steps ((x.enter t (.running q)).status t) < weight steps (s.status t) := by
    intro x q same less
    exact weight_enter same (by rw [same, here]; exact less)
  unfold exec at stepped
  unfold Sinks at sinks
  cases code : P.code p with
  | act f =>
    simp only [code] at stepped sinks
    split at stepped <;> cases stepped
    rename_i data q acted
    exact goes rfl (sinks _ _ _ settled acted)
  | lock m q =>
    simp only [code] at stepped sinks
    split at stepped <;> cases stepped
    exact goes rfl sinks
  | tryLock m q r =>
    simp only [code] at stepped sinks
    split at stepped <;> cases stepped
    · exact goes rfl sinks.1
    · exact goes rfl sinks.2
  | unlock m q =>
    simp only [code] at stepped sinks
    cases stepped
    exact goes rfl sinks
  | wait c ready timed q =>
    simp only [code] at stepped sinks
    rw [if_pos (sinks.2 _ settled)] at stepped
    cases stepped
    exact goes rfl sinks.1
  | notify c q =>
    simp only [code] at stepped sinks
    cases stepped
    simp only [State.enter, update_self, here]
    exact sinks
  | join u q =>
    simp only [code] at stepped sinks
    split at stepped <;> cases stepped
    exact goes rfl sinks
  | halt =>
    simp only [code] at stepped
    cases stepped

/-- Each step leaves its thread fewer steps. -/
theorem weight_step (settled : final s.data) (sinks : Sinks P final steps (s.point t))
    (stepped : step P s (t, move) = some s') :
    weight steps (s'.status t) < weight steps (s.status t) := by
  cases move with
  | go a =>
    simp only [step] at stepped
    split at stepped
    · rename_i p here
      rw [State.point, here] at sinks
      exact weight_exec here settled sinks stepped
    · rename_i p here
      split at stepped <;> cases stepped
      rename_i c _
      have before : (s.release (P.guard c)).status t = .drowsy p := here
      exact weight_enter rfl (by rw [before]; exact Nat.lt_succ_self _)
    · cases stepped
    · rename_i p expired here
      rw [State.point, here, Status.point] at sinks
      split at stepped
      · rename_i c ready timed q code
        rw [Sinks, code] at sinks
        split at stepped <;> cases stepped
        have before : (s.take (P.guard c) t).status t = .woken p expired := here
        refine weight_enter rfl ?_
        rw [before]
        split
        · exact Nat.lt_succ_of_lt sinks.1
        · exact Nat.lt_succ_self _
      · cases stepped
  | expire =>
    simp only [step] at stepped
    split at stepped
    · rename_i p here
      split at stepped <;> cases stepped
      exact weight_enter rfl (by rw [here]; exact Nat.lt_succ_self _)
    · cases stepped
  | rouse =>
    simp only [step] at stepped
    split at stepped
    · rename_i p here
      cases stepped
      exact weight_enter rfl (by rw [here]; exact Nat.lt_succ_self _)
    · cases stepped

/-- It leaves no other thread more. -/
theorem weight_others (stepped : step P s (t, move) = some s') {u : τ} (apart : u ≠ t) :
    weight steps (s'.status u) ≤ weight steps (s.status u) := by
  have stays : ∀ {x : State τ σ π μ} {status : Status π}, x.status = s.status →
      weight steps ((x.enter t status).status u) ≤ weight steps (s.status u) := by
    intro x status same
    simp only [State.enter, update_of_ne apart, same]
    exact Nat.le_refl _
  cases move with
  | go a =>
    simp only [step] at stepped
    split at stepped
    · rename_i p here
      unfold exec at stepped
      split at stepped
      · split at stepped <;> cases stepped
        exact stays rfl
      · split at stepped <;> cases stepped
        exact stays rfl
      · split at stepped <;> cases stepped <;> exact stays rfl
      · cases stepped
        exact stays rfl
      · cases stepped
        exact stays rfl
      · cases stepped
        simp only [State.enter, update_of_ne apart]
        exact weight_wake _ _
      · split at stepped <;> cases stepped
        exact stays rfl
      · cases stepped
    · split at stepped <;> cases stepped
      exact stays rfl
    · cases stepped
    · split at stepped
      · split at stepped <;> cases stepped
        exact stays rfl
      · cases stepped
  | expire =>
    simp only [step] at stepped
    split at stepped
    · split at stepped <;> cases stepped
      exact stays rfl
    · cases stepped
  | rouse =>
    simp only [step] at stepped
    split at stepped
    · cases stepped
      exact stays rfl
    · cases stepped

omit [DecidableEq τ] [DecidableEq μ] [DecidableEq κ] in
theorem total_le {group : List τ}
    (all : ∀ u ∈ group, weight steps (s'.status u) ≤ weight steps (s.status u)) :
    total s' steps group ≤ total s steps group := by
  induction group with
  | nil => exact Nat.le_refl _
  | cons u group ih =>
    obtain ⟨first, rest⟩ := List.forall_mem_cons.mp all
    exact Nat.add_le_add first (ih rest)

omit [DecidableEq τ] [DecidableEq μ] [DecidableEq κ] in
theorem total_lt {group : List τ} (mem : t ∈ group)
    (all : ∀ u ∈ group, weight steps (s'.status u) ≤ weight steps (s.status u))
    (less : weight steps (s'.status t) < weight steps (s.status t)) :
    total s' steps group < total s steps group := by
  induction group with
  | nil => cases mem
  | cons u group ih =>
    obtain ⟨first, rest⟩ := List.forall_mem_cons.mp all
    rcases List.mem_cons.mp mem with rfl | later
    · exact Nat.add_lt_add_of_lt_of_le less (total_le rest)
    · exact Nat.add_lt_add_of_le_of_lt first (ih later rest)

/-- However the moves of other threads come in between, a group of threads that sink makes
no more moves than it has steps before it. -/
theorem moves_le {group : List τ} {Q : τ → π → Prop}
    (goes : ∀ t p q, Q t p → Goes P p q → Q t q)
    (acts : ∀ t p f d a r, Q t p → P.code p = .act f → f d a = some r → Q t r.2)
    (stays : ∀ p f d a r, P.code p = .act f → final d → f d a = some r → final r.1)
    (sinks : ∀ t ∈ group, ∀ p, Q t p → Sinks P final steps p)
    {moves : List (τ × Move α)} (settled : final s.data) (inside : ∀ t, Q t (s.point t))
    (ran : run (step P) s moves = some s') :
    (moves.filter fun m => m.1 ∈ group).length ≤ total s steps group := by
  induction moves generalizing s with
  | nil => exact Nat.zero_le _
  | cons label moves ih =>
    obtain ⟨t, move⟩ := label
    obtain ⟨next, stepped, ran⟩ := run_cons_eq_some.mp ran
    obtain ⟨moved, apart⟩ := moved_step stepped
    have next_final : final next.data := by
      rcases moved with ⟨p, f, a, r, -, -, code, acted, data, -⟩ | ⟨data, -⟩
      · rw [data]
        exact stays p f _ a r code settled acted
      · rw [data]
        exact settled
    have inside' : ∀ u, Q u (next.point u) := fun u =>
      points_step goes acts inside stepped u
    have rest := ih next_final inside' ran
    by_cases mem : t ∈ group
    · have less := weight_step settled (sinks t mem _ (inside t)) stepped
      have all : ∀ u ∈ group, weight steps (next.status u) ≤ weight steps (s.status u) := by
        intro u _
        by_cases same : u = t
        · exact same ▸ Nat.le_of_lt less
        · exact weight_others stepped same
      rw [List.filter_cons, if_pos (decide_eq_true mem), List.length_cons]
      exact Nat.lt_of_le_of_lt rest (total_lt mem all less)
    · have all : ∀ u ∈ group, weight steps (next.status u) ≤ weight steps (s.status u) :=
        fun u inGroup => weight_others stepped fun same => mem (same ▸ inGroup)
      rw [List.filter_cons, if_neg fun is => mem (of_decide_eq_true is)]
      exact Nat.le_trans rest (total_le all)

end Measure

end Lib.Monitors
