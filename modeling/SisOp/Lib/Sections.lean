import SisOp.Lib.Monitors

/-!
# Critical sections

A thread whose critical sections are mostly short: it takes a mutex, reads or changes
something, and releases it before it goes on. A script says what is done at each place, and
the points of the program are made from it; `within` and `leave` are inside such a section.

Main results: `Script.fits`, the mutexes are taken in the order of their ranks when they are
at each place; `Script.pays`, those that wait are woken when a section that brings about what
they wait for is followed by a wakeup; and `Script.place_step`, a step of the program is one
of the script.
-/

namespace Lib.Sections

open Monitors

/-- What is done at a place: a section, a mutex taken, tried or released on its own, an
action under no further mutex, a wait, a wakeup, or nothing more. -/
inductive Doing (σ π μ κ : Type) where
  | brief (m : μ)
  | takes (m : μ) (p : π)
  | tries (m : μ) (p busy : π)
  | releases (m : μ) (p : π)
  | acts
  | waits (c : κ) (ready : σ → Bool) (timed : Bool) (p : π)
  | notifies (c : κ) (p : π)
  | ends

/-- The places with the mutexes held before each; a section and an action leave them. -/
structure Script (σ π μ κ α : Type) where
  does : π → Doing σ π μ κ
  next : π → σ → α → Option (σ × π)
  holds : π → List μ
  guard : κ → μ
  same : ∀ {p d a r}, next p d a = some r → holds r.2 = holds p

namespace Script

variable {τ σ π μ κ α : Type} (S : Script σ π μ κ α)

inductive Point where
  | on (p : π)
  | within (p : π) (m : μ) (brief : S.does p = .brief m)
  | leave (p q : π) (m : μ) (brief : S.does p = .brief m) (same : S.holds q = S.holds p)

/-- The place of a point. -/
def Point.place : S.Point → π
  | .on p | .within p _ _ | .leave p _ _ _ _ => p

/-- The place whose turn it is: after the action of a section, the next one. -/
def Point.reached : S.Point → π
  | .on p | .within p _ _ | .leave _ p _ _ _ => p

/-- The action at a place, and where it leads. -/
def action (p : π) (lead : (q : π) → S.holds q = S.holds p → S.Point) (d : σ) (a : α) :
    Option (σ × S.Point) :=
  match went : S.next p d a with
  | some r => some (r.1, lead r.2 (S.same went))
  | none => none

/-- What is done at a place, as an instruction. -/
def instr (p : π) : (doing : Doing σ π μ κ) → S.does p = doing → Instr τ σ S.Point μ κ α
  | .brief m, is => .lock m (.within p m is)
  | .takes m q, _ => .lock m (.on q)
  | .tries m q r, _ => .tryLock m (.on q) (.on r)
  | .releases m q, _ => .unlock m (.on q)
  | .acts, _ => .act (S.action p fun q _ => .on q)
  | .waits c ready timed q, _ => .wait c ready timed (.on q)
  | .notifies c q, _ => .notify c (.on q)
  | .ends, _ => .halt

def code : S.Point → Instr τ σ S.Point μ κ α
  | .on p => S.instr p (S.does p) rfl
  | .within p m is => .act (S.action p fun q same => .leave p q m is same)
  | .leave _ q m _ _ => .unlock m (.on q)

variable (τ) in
def program : Program τ σ S.Point μ κ α := ⟨S.code, S.guard⟩

def held : S.Point → List μ
  | .on p => S.holds p
  | .within p m _ | .leave p _ m _ _ => m :: S.holds p

variable {S}

theorem action_eq_some {p : π} {lead : (q : π) → S.holds q = S.holds p → S.Point} {d : σ} {a : α}
    {r : σ × S.Point} (acted : S.action p lead d a = some r) :
    ∃ (q : π) (went : S.next p d a = some (r.1, q)), r.2 = lead q (S.same went) := by
  unfold action at acted
  split at acted
  · rename_i r' went
    cases acted
    exact ⟨r'.2, went, rfl⟩
  · cases acted

theorem code_on {p : π} {doing : Doing σ π μ κ} (is : S.does p = doing) :
    (S.program τ).code (.on p) = S.instr p doing is := by
  cases is
  rfl

variable (S) in
/-- The mutexes held at a place fit what is done there. -/
def Ordered (rank : μ → ℕ) (p : π) : Prop :=
  match S.does p with
  | .brief m => ∀ m' ∈ S.holds p, rank m' < rank m
  | .takes m q => S.holds q = m :: S.holds p ∧ ∀ m' ∈ S.holds p, rank m' < rank m
  | .tries m q r => S.holds q = m :: S.holds p ∧ S.holds r = S.holds p ∧ m ∉ S.holds p
  | .releases m q => S.holds p = m :: S.holds q ∧ m ∉ S.holds q
  | .acts => True
  | .waits c _ timed q => S.holds q = S.holds p ∧ ∃ rest, S.holds p = S.guard c :: rest ∧
      (∀ m ∈ rest, rank m < rank (S.guard c)) ∧ (timed = false → rest = [])
  | .notifies _ q => S.holds q = S.holds p
  | .ends => S.holds p = []

/-- Sections and scopes that keep to the order of the ranks make a program that does. -/
theorem fits {rank : μ → ℕ} (ordered : ∀ p, S.Ordered rank p) (x : S.Point) :
    Fits (S.program τ) rank S.held x := by
  have lower : ∀ {p m}, S.does p = .brief m → ∀ m' ∈ S.holds p, rank m' < rank m := by
    intro p m is
    have fine := ordered p
    rw [Ordered, is] at fine
    exact fine
  cases x with
  | within p m is =>
    intro d a r acted
    obtain ⟨q, went, gets⟩ := action_eq_some acted
    rw [gets]
    rfl
  | leave p q m is same =>
    refine ⟨congrArg (m :: ·) same.symm, fun mem => ?_⟩
    change m ∈ S.holds q at mem
    rw [same] at mem
    exact absurd (lower is m mem) (Nat.lt_irrefl _)
  | on p =>
    have fine := ordered p
    cases is : S.does p with
    | brief m =>
      rw [Fits, code_on is]
      exact ⟨rfl, lower is⟩
    | acts =>
      rw [Fits, code_on is]
      intro d a r acted
      obtain ⟨q, went, gets⟩ := action_eq_some acted
      rw [gets]
      exact S.same went
    | _ =>
      rw [Ordered, is] at fine
      rw [Fits, code_on is]
      exact fine

theorem exists_action {p : π} (lead : (q : π) → S.holds q = S.holds p → S.Point) {d : σ} {a : α}
    {r : σ × π} (went : S.next p d a = some r) : ∃ r', S.action p lead d a = some r' := by
  unfold action
  split
  · exact ⟨_, rfl⟩
  · rename_i never
    cases never.symm.trans went

/-- Whatever is done at a place can be done. -/
theorem prompt
    (ready : ∀ p, (S.does p = .acts ∨ ∃ m, S.does p = .brief m) →
      ∀ d, ∃ a r, S.next p d a = some r) :
    Prompt (S.program τ) := by
  intro x f is d
  cases x with
  | within p m brief =>
    cases is
    obtain ⟨a, r, went⟩ := ready p (.inr ⟨m, brief⟩) d
    exact ⟨a, exists_action _ went⟩
  | leave p q m brief same => cases is
  | on p =>
    cases doing : S.does p with
    | acts =>
      rw [code_on doing] at is
      cases is
      obtain ⟨a, r, went⟩ := ready p (.inl doing) d
      exact ⟨a, exists_action _ went⟩
    | _ =>
      rw [code_on doing] at is
      cases is

theorem code_eq_wait {x y : S.Point} {c : κ} {ready : σ → Bool} {timed : Bool}
    (is : (S.program τ).code x = .wait c ready timed y) :
    ∃ p q, x = .on p ∧ S.does p = .waits c ready timed q := by
  cases x with
  | on p =>
    cases doing : S.does p with
    | waits c' ready' timed' q =>
      rw [code_on doing] at is
      cases is
      exact ⟨p, q, rfl, doing⟩
    | _ =>
      rw [code_on doing] at is
      cases is
  | _ => cases is

/-! ## Wakeups -/

section Debts

variable [DecidableEq κ]

variable (S) in
/-- A wakeup is owed at the places that make it. -/
def owes (c : κ) (p : π) : Debt :=
  match S.does p with
  | .notifies c' _ => if c = c' then .half else .none
  | _ => .none

variable (S) in
def debt (c : κ) (x : S.Point) : Debt := S.owes c x.reached

theorem owes_eq_none {c : κ} {p : π} (quiet : ∀ c' q, S.does p ≠ .notifies c' q) :
    S.owes c p = .none := by
  rw [owes]
  split
  · rename_i c' q is
    exact absurd is (quiet c' q)
  · rfl

theorem notifies_of_owes {c : κ} {p : π} (owing : S.owes c p ≠ .none) :
    ∃ q, S.does p = .notifies c q := by
  rw [owes] at owing
  split at owing
  · rename_i c' q is
    split at owing
    · rename_i same
      exact ⟨q, same ▸ is⟩
    · exact absurd rfl owing
  · exact absurd rfl owing

/-- What others wait for comes true under the mutex they wait with, and the next thing is to
wake them. -/
theorem pays [DecidableEq μ] (due : π → σ → Bool)
    (goes : ∀ w c ready timed q d, S.does w = .waits c ready timed q → due w d = true →
      ready d = true)
    (sets : ∀ p d a r, S.next p d a = some r → ∀ w c ready timed q,
      S.does w = .waits c ready timed q → due w d = false → due w r.1 = true →
        S.does p = .brief (S.guard c) ∧ ∃ q', S.does r.2 = .notifies c q') (x : S.Point) :
    Pays (S.program τ) S.held (fun x => due x.reached) S.debt x := by
  cases x with
  | within p m is =>
    intro d a r acted c
    obtain ⟨q, went, gets⟩ := action_eq_some acted
    refine ⟨?_, fun y ready timed z waits missing there => ?_⟩
    · rw [debt, Point.reached, owes_eq_none fun c' q' other => by cases is.symm.trans other]
      trivial
    · obtain ⟨w, q', rfl, doing⟩ := code_eq_wait waits
      obtain ⟨guarded, q'', wakes⟩ := sets p d a _ went w c ready timed q' doing missing there
      cases is.symm.trans guarded
      rw [gets]
      refine .inr ⟨?_, List.mem_cons_self⟩
      rw [debt, Point.reached, owes]
      simp only [wakes, if_pos]
  | leave p q m is same =>
    intro c
    exact Debt.le_refl _
  | on p =>
    cases doing : S.does p with
    | notifies c' q =>
      rw [Pays, code_on doing]
      intro c
      rw [debt, Point.reached, owes]
      simp only [doing]
      split
      · exact Debt.noConfusion
      · trivial
    | waits c ready timed q =>
      rw [Pays, code_on doing]
      refine ⟨fun c' => owes_eq_none fun c'' q' other => ?_, fun d there => ?_⟩
      · cases doing.symm.trans other
      · exact goes p c ready timed q d doing there
    | acts =>
      rw [Pays, code_on doing]
      intro d a r acted c
      obtain ⟨q, went, gets⟩ := action_eq_some acted
      refine ⟨?_, fun y ready timed z waits missing there => ?_⟩
      · rw [debt, Point.reached, owes_eq_none fun c' q' other => by cases doing.symm.trans other]
        trivial
      · obtain ⟨w, q', rfl, is⟩ := code_eq_wait waits
        cases doing.symm.trans (sets p d a _ went w c ready timed q' is missing there).1
    | _ =>
      have nothing : ∀ c, S.debt c (.on p) = .none := fun c =>
        owes_eq_none fun c' q' other => by cases doing.symm.trans other
      rw [Pays, code_on doing]
      first
      | exact nothing
      | exact fun c => by rw [nothing c]; trivial
      | exact fun c => by
          rw [nothing c]
          split
          · exact fun owing => absurd rfl owing
          · trivial

end Debts

/-! ## Steps -/

variable (S) in
/-- One place leads to another without an action. -/
def Leads (p q : π) : Prop :=
  match S.does p with
  | .takes _ r | .releases _ r | .waits _ _ _ r | .notifies _ r => q = r
  | .tries _ r r' => q = r ∨ q = r'
  | .brief _ | .acts | .ends => False

theorem leads_of_goes {x y : S.Point} (goes : Goes (S.program τ) x y) :
    y.reached = x.reached ∨ S.Leads x.reached y.reached := by
  cases x with
  | within p m is => cases goes
  | leave p q m is same =>
    cases goes
    exact .inl rfl
  | on p =>
    cases doing : S.does p with
    | brief m =>
      rw [Goes, code_on doing] at goes
      cases goes
      exact .inl rfl
    | acts | ends =>
      rw [Goes, code_on doing] at goes
      cases goes
    | tries m q r =>
      rw [Goes, code_on doing] at goes
      refine .inr ?_
      rw [Leads, Point.reached, doing]
      rcases goes with rfl | rfl
      · exact .inl rfl
      · exact .inr rfl
    | _ =>
      rw [Goes, code_on doing] at goes
      cases goes
      refine .inr ?_
      rw [Leads, Point.reached, doing]
      rfl

section Steps

variable [DecidableEq τ] [DecidableEq μ] [DecidableEq κ] {s s' : State τ σ S.Point μ} {t : τ}
  {move : Move α}

/-- A step is an action of the script, or its thread stays at its place or gets to the next
one, the data as before. -/
theorem place_step (stepped : step (S.program τ) s (t, move) = some s') :
    ((∃ a, S.next (s.point t).reached s.data a = some (s'.data, (s'.point t).reached)) ∨
      s'.data = s.data ∧ ((s'.point t).reached = (s.point t).reached ∨
        S.Leads (s.point t).reached (s'.point t).reached)) ∧
      ∀ u, u ≠ t → s'.point u = s.point u := by
  obtain ⟨moved, others⟩ := moved_step stepped
  refine ⟨?_, others⟩
  rcases moved with ⟨x, f, a, r, -, here, code, acted, data, point⟩ | ⟨data, point | goes⟩
  · have now : s.point t = x := by rw [State.point, here]; rfl
    rw [now, point, data]
    cases x with
    | within p m is =>
      cases code
      obtain ⟨q, went, gets⟩ := action_eq_some acted
      rw [gets]
      exact .inl ⟨a, went⟩
    | leave p q m is same => cases code
    | on p =>
      cases doing : S.does p with
      | acts =>
        rw [code_on doing] at code
        cases code
        obtain ⟨q, went, gets⟩ := action_eq_some acted
        rw [gets]
        exact .inl ⟨a, went⟩
      | _ =>
        rw [code_on doing] at code
        cases code
  · exact .inr ⟨data, .inl (congrArg _ point)⟩
  · exact .inr ⟨data, leads_of_goes goes⟩

end Steps

end Script

end Lib.Sections
