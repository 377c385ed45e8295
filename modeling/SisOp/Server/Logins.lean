import SisOp.Server.Accounts
import SisOp.Lib.Run
import Mathlib.Logic.Function.Basic

/-!
# First logins

`Server::authenticate` with `Accounts::get` and `Accounts::create` for one user
name: any number of attempts, and any choice of the files that cannot be opened.
`Accounts` locks each of its calls; the hashing in between is done without a lock.
`derive` is the key derivation of the cryptographic library.

Main result: `account_kept`.
-/

namespace SisOp.Logins

open Lib Function

/-! ## Attempts -/

inductive Outcome where
  | created
  | verified
  | refused (reason : Bytes)
  deriving DecidableEq

/-- Where an attempt is: `missed` after a `get` without a record, `made` with a record
of its own, `again` when it could not create the account. -/
inductive Phase where
  | idle
  | started (password : Bytes)
  | missed (password : Bytes)
  | made (password record : Bytes)
  | again (password : Bytes)
  | check (password record : Bytes)
  | done (password : Bytes) (outcome : Outcome)

/-- The record in the user's file, when there is one. -/
structure State (σ : Type) where
  file : Option Bytes
  phase : σ → Phase

/-- `opens` and `finds` say whether the file could be opened, `written` whether the
new record could be written and renamed. -/
inductive Label (σ : Type) where
  | start (i : σ) (password : Bytes)
  | get (i : σ) (opens : Bool)
  | make (i : σ) (random : Option Bytes)
  | create (i : σ) (finds written : Bool)
  | verify (i : σ)

section Step

variable {σ : Type} [DecidableEq σ] (derive : Bytes → Bytes → Nat → Option Bytes)

def State.move (s : State σ) (i : σ) (phase : Phase) : State σ :=
  { s with phase := update s.phase i phase }

@[simp] theorem State.move_self (s : State σ) (i : σ) (phase : Phase) :
    (s.move i phase).phase i = phase := update_self ..

theorem State.move_of_ne (s : State σ) {i j : σ} (other : j ≠ i) (phase : Phase) :
    (s.move i phase).phase j = s.phase j := update_of_ne other ..

/-- `Accounts::get`. -/
def State.get (s : State σ) (opens : Bool) : Option Bytes :=
  (if opens then s.file else none).filter isValidRecord

def step (s : State σ) : Label σ → Option (State σ)
  | .start i password =>
    match s.phase i with
    | .idle => some (s.move i (.started password))
    | _ => none
  | .get i opens =>
    match s.phase i, s.get opens with
    | .started password, some record => some (s.move i (.check password record))
    | .started password, none => some (s.move i (.missed password))
    | .again password, some record => some (s.move i (.check password record))
    | .again password, none =>
      some (s.move i (.done password (.refused (bytes "the server could not create the account"))))
    | _, _ => none
  | .make i random =>
    match s.phase i with
    | .missed password =>
      match makeRecord derive password random with
      | some record => some (s.move i (.made password record))
      | none => some (s.move i (.again password))
    | _ => none
  | .create i finds written =>
    match s.phase i with
    | .made password record =>
      if s.file.isSome && finds then some (s.move i (.again password))
      else if written then some ({ s with file := some record }.move i (.done password .created))
      else some (s.move i (.again password))
    | _ => none
  | .verify i =>
    match s.phase i with
    | .check password record =>
      if verify derive record password then some (s.move i (.done password .verified))
      else some (s.move i (.done password (.refused (bytes "wrong password"))))
    | _ => none

/-- The kinds of steps. -/
inductive Stepped (s : State σ) : Label σ → State σ → Prop where
  | start {i : σ} {password : Bytes} (here : s.phase i = .idle) :
      Stepped s (.start i password) (s.move i (.started password))
  | found {i : σ} {opens : Bool} {password record : Bytes}
      (here : s.phase i = .started password ∨ s.phase i = .again password)
      (got : s.get opens = some record) :
      Stepped s (.get i opens) (s.move i (.check password record))
  | missed {i : σ} {opens : Bool} {password : Bytes} (here : s.phase i = .started password) :
      Stepped s (.get i opens) (s.move i (.missed password))
  | lost {i : σ} {opens : Bool} {password : Bytes} (here : s.phase i = .again password) :
      Stepped s (.get i opens) (s.move i
        (.done password (.refused (bytes "the server could not create the account"))))
  | made {i : σ} {random : Option Bytes} {password record : Bytes}
      (here : s.phase i = .missed password) :
      Stepped s (.make i random) (s.move i (.made password record))
  | unmade {i : σ} {random : Option Bytes} {password : Bytes} (here : s.phase i = .missed password)
      (failed : makeRecord derive password random = none) :
      Stepped s (.make i random) (s.move i (.again password))
  | taken {i : σ} {written : Bool} {password record : Bytes}
      (here : s.phase i = .made password record) (present : s.file ≠ none) :
      Stepped s (.create i true written) (s.move i (.again password))
  | created {i : σ} {finds : Bool} {password record : Bytes}
      (here : s.phase i = .made password record) (missed : s.file ≠ none → finds ≠ true) :
      Stepped s (.create i finds true)
        ({ s with file := some record }.move i (.done password .created))
  | unwritten {i : σ} {finds : Bool} {password record : Bytes}
      (here : s.phase i = .made password record) :
      Stepped s (.create i finds false) (s.move i (.again password))
  | verified {i : σ} {password record : Bytes} (here : s.phase i = .check password record)
      (holds : verify derive record password = true) :
      Stepped s (.verify i) (s.move i (.done password .verified))
  | wrong {i : σ} {password record : Bytes} (here : s.phase i = .check password record) :
      Stepped s (.verify i) (s.move i (.done password (.refused (bytes "wrong password"))))

theorem Stepped.of_step {s s' : State σ} {label : Label σ}
    (stepped : step derive s label = some s') :
    Stepped derive s label s' := by
  cases label with
  | start i password =>
    simp only [step] at stepped
    split at stepped <;> cases stepped
    exact .start ‹_›
  | get i opens =>
    simp only [step] at stepped
    split at stepped <;> cases stepped
    · exact .found (.inl ‹_›) ‹_›
    · exact .missed ‹_›
    · exact .found (.inr ‹_›) ‹_›
    · exact .lost ‹_›
  | make i random =>
    simp only [step] at stepped
    split at stepped
    · split at stepped <;> cases stepped
      · exact .made ‹_›
      · exact .unmade ‹_› ‹_›
    · cases stepped
  | create i finds written =>
    simp only [step] at stepped
    split at stepped
    · rename_i here
      split at stepped
      · rename_i both
        obtain ⟨present, rfl⟩ := Bool.and_eq_true_iff.mp both
        cases stepped
        exact .taken here (Option.isSome_iff_ne_none.mp present)
      · rename_i missed
        cases written with
        | true =>
          cases stepped
          exact .created here fun present finds =>
            missed (Bool.and_eq_true_iff.mpr ⟨Option.isSome_iff_ne_none.mpr present, finds⟩)
        | false =>
          cases stepped
          exact .unwritten here
    · cases stepped
  | verify i =>
    simp only [step] at stepped
    split at stepped
    · split at stepped <;> cases stepped
      · exact .verified ‹_› ‹_›
      · exact .wrong ‹_›
    · cases stepped

/-- `create` can open the user's file when there is one. -/
def Safe (s : State σ) : Label σ → Prop
  | .create _ finds _ => s.file ≠ none → finds = true
  | _ => True

instance (s : State σ) : ∀ label, Decidable (Safe s label)
  | .create _ finds _ => inferInstanceAs (Decidable (s.file ≠ none → finds = true))
  | .start _ _ | .get _ _ | .make _ _ | .verify _ => isTrue trivial

/-- Records can be made and written. -/
def Writes (_ : State σ) : Label σ → Prop
  | .create _ _ written => written = true
  | .make _ random => ∀ password, makeRecord derive password random ≠ none
  | _ => True

end Step

section Runs

variable {σ : Type} [DecidableEq σ] {derive : Bytes → Bytes → Nat → Option Bytes}
  {s₀ s s' : State σ} {labels : List (Label σ)}

/-- The attempt `i` created the account. -/
def State.Created (s : State σ) (i : σ) : Prop := ∃ password, s.phase i = .done password .created

/-- The attempt `i` is over. -/
def State.Finished (s : State σ) (i : σ) : Prop := ∃ password outcome,
    s.phase i = .done password outcome

/-- A phase that agrees with the file, and is no creation. -/
def Fine (derive : Bytes → Bytes → Nat → Option Bytes) (s : State σ) : Phase → Prop
  | .check _ record => s.file = some record
  | .done password .verified => ∃ record, s.file = some record ∧
      verify derive record password = true
  | .done _ .created => False
  | _ => True

/-- At most one attempt created the account, and only where there was none. -/
structure Inv (derive : Bytes → Bytes → Nat → Option Bytes) (s₀ s : State σ) : Prop where
  fine : ∀ i, s.Created i ∨ Fine derive s (s.phase i)
  created : ∀ i, s.Created i → s.file ≠ none ∧ s₀.file = none
  once : ∀ i j, s.Created i → s.Created j → i = j
  origin : s.file ≠ none → s₀.file ≠ none ∨ ∃ i, s.Created i
  start : s.file = none → s₀.file = none

omit [DecidableEq σ] in
theorem inv_fresh (fresh : ∀ i, s₀.phase i = .idle) : Inv derive s₀ s₀ := by
  have none' : ∀ i, ¬s₀.Created i := by
    rintro i ⟨password, done⟩
    rw [fresh] at done
    cases done
  refine ⟨fun i => .inr ?_, fun i made => absurd made (none' i),
    fun i _ made => absurd made (none' i), .inl, id⟩
  rw [fresh]
  trivial

omit [DecidableEq σ] in
theorem not_created_of {i : σ} {phase : Phase} (here : s.phase i = phase)
    (other : ∀ password, phase ≠ .done password .created) : ¬s.Created i := by
  rintro ⟨password, done⟩
  exact other password (here.symm.trans done)

theorem created_move_of_ne {i j : σ} (other : j ≠ i) (phase : Phase) :
    (s.move i phase).Created j ↔ s.Created j := by
  simp only [State.Created, s.move_of_ne other]

theorem created_move {phase : Phase} {i : σ} (before : ¬s.Created i)
    (after : ∀ password, phase ≠ .done password .created) (j : σ) :
    (s.move i phase).Created j ↔ s.Created j := by
  by_cases same : j = i
  · subst j
    exact iff_of_false (not_created_of (s.move_self i phase) after) before
  · exact created_move_of_ne same phase

/-- An attempt that goes on without creating the account. -/
theorem Inv.move (inv : Inv derive s₀ s) {i : σ} {phase : Phase} (before : ¬s.Created i)
    (fine : Fine derive s phase) : Inv derive s₀ (s.move i phase) := by
  have after : ∀ password, phase ≠ .done password .created := by
    rintro password rfl
    exact fine
  have same := created_move before after
  refine ⟨fun j => ?_, fun j made => inv.created j ((same j).mp made),
    fun j k made made' => inv.once j k ((same j).mp made) ((same k).mp made'), fun present => ?_,
    inv.start⟩
  · by_cases here : j = i
    · subst j
      right
      rw [State.move_self]
      exact fine
    · rw [same, State.move_of_ne s here]
      exact inv.fine j
  · rcases inv.origin present with old | ⟨j, made⟩
    · exact .inl old
    · exact .inr ⟨j, (same j).mpr made⟩

/-- The creation of the account, where there is none. -/
theorem Inv.create (inv : Inv derive s₀ s) (i : σ) (password record : Bytes)
    (absent : s.file = none) :
    Inv derive s₀ ({ s with file := some record }.move i (.done password .created)) := by
  have nobody : ∀ j, ¬s.Created j := fun j made => (inv.created j made).1 absent
  generalize eq : ({ s with file := some record } : State σ) = s₁
  have none' : ∀ j, ¬s₁.Created j := by
    subst eq
    exact nobody
  have only : ∀ j, (s₁.move i (.done password .created)).Created j → j = i := by
    intro j made
    by_contra other
    exact none' j ((created_move_of_ne other _).mp made)
  refine ⟨fun j => ?_, fun j _ => ⟨?_, inv.start absent⟩,
    fun j k made made' => (only j made).trans (only k made').symm,
    fun _ => .inr ⟨i, password, s₁.move_self ..⟩, fun missing => ?_⟩
  · by_cases here : j = i
    · subst j
      exact .inl ⟨password, s₁.move_self ..⟩
    · right
      rw [State.move_of_ne s₁ here]
      have before := (inv.fine j).resolve_left (nobody j)
      subst eq
      -- no phase speaks of a record yet
      cases phase : s.phase j with
      | check p r =>
        rw [phase] at before
        exact absurd (absent.symm.trans before) nofun
      | done p outcome =>
        rw [phase] at before
        cases outcome with
        | created => exact before
        | verified =>
          obtain ⟨r, present, -⟩ := before
          exact absurd (absent.symm.trans present) nofun
        | refused reason => trivial
      | idle | started | missed | made | again => trivial
  · subst eq
    nofun
  · subst eq
    cases missing

omit [DecidableEq σ] in
theorem get_eq_some {opens : Bool} {record : Bytes} (got : s.get opens = some record) :
    s.file = some record := by
  obtain ⟨present, -⟩ := Option.filter_eq_some_iff.mp got
  split at present
  · exact present
  · cases present

theorem Inv.step (inv : Inv derive s₀ s) {label : Label σ} (safe : Safe s label)
    (stepped : step derive s label = some s') : Inv derive s₀ s' := by
  cases Stepped.of_step derive stepped with
  | start here | missed here | lost here | made here | unmade here | taken here | unwritten here
  | wrong here => exact inv.move (not_created_of here nofun) trivial
  | found here got =>
    rcases here with here | here <;> exact inv.move (not_created_of here nofun) (get_eq_some got)
  | created here missed =>
    refine inv.create _ _ _ ?_
    by_contra present
    exact missed present (safe present)
  | verified here holds =>
    have fine := (inv.fine _).resolve_left (not_created_of here nofun)
    rw [here] at fine
    exact inv.move (not_created_of here nofun) ⟨_, fine, holds⟩

/-- Only a creation that did not find the file writes it. -/
theorem file_cases {label : Label σ} (stepped : step derive s label = some s') :
    s'.file = s.file ∨
      ∃ i finds, label = .create i finds true ∧ (s.file ≠ none → finds ≠ true) := by
  cases Stepped.of_step derive stepped with
  | created _ missed => exact .inr ⟨_, _, rfl, missed⟩
  | _ => exact .inl rfl

/-- A record on disk stays. -/
theorem file_step {record : Bytes} {label : Label σ} (present : s.file = some record)
    (safe : Safe s label) (stepped : step derive s label = some s') : s'.file = some record := by
  rcases file_cases stepped with same | ⟨i, finds, rfl, missed⟩
  · rw [same, present]
  · have some_ : s.file ≠ none := by rw [present]; nofun
    exact absurd (safe some_) (missed some_)

/-- The attempt has found the account or tried to create it. -/
def Tried : Phase → Prop
  | .again _ | .check _ _ | .done _ _ => True
  | _ => False

theorem written_move (held : ∀ j, Tried (s.phase j) → s.file ≠ none) {i : σ} {phase : Phase}
    (known : Tried phase → s.file ≠ none) (j : σ) (tried : Tried ((s.move i phase).phase j)) :
    s.file ≠ none := by
  by_cases here : j = i
  · subst j
    rw [State.move_self] at tried
    exact known tried
  · rw [State.move_of_ne s here] at tried
    exact held j tried

/-- Where records can be written there is a file once an attempt has tried. -/
theorem written_step (held : ∀ j, Tried (s.phase j) → s.file ≠ none) {label : Label σ}
    (writes : Writes derive s label) (stepped : step derive s label = some s') :
    ∀ j, Tried (s'.phase j) → s'.file ≠ none := by
  have known : ∀ i phase, s.phase i = phase → Tried phase → s.file ≠ none :=
    fun i phase here tried => held i (here ▸ tried)
  cases Stepped.of_step derive stepped with
  | start | missed | made => exact written_move held nofun
  | found _ got => exact written_move held fun _ => by rw [get_eq_some got]; nofun
  | lost here | verified here | wrong here =>
    exact written_move held fun _ => known _ _ here trivial
  | unmade _ failed => exact absurd failed (writes _)
  | taken _ present => exact written_move held fun _ => present
  | created => exact fun _ _ => nofun
  | unwritten => exact absurd writes Bool.false_ne_true

/-- **A login never replaces an account**, as long as `create` can open the user's
file when there is one. In such a run a record that is on disk stays; of the attempts
that found none exactly one created the record that is there, and if records can be
written one of them did; every other login that succeeded did so with a password that
verifies against the record. -/
theorem account_kept (fresh : ∀ i, s₀.phase i = .idle) (safe : Meets (step derive) Safe s₀ labels)
    (ran : run (step derive) s₀ labels = some s) :
    (∀ before after t record, labels = before ++ after → run (step derive) s₀ before = some t →
      t.file = some record → s.file = some record) ∧
    (s₀.file ≠ none → ∀ i, ¬s.Created i) ∧
    (s₀.file = none → s.file ≠ none → ∃! i, s.Created i) ∧
    (s₀.file = none → Meets (step derive) (Writes derive) s₀ labels → (∃ i, s.Finished i) →
      ∃! i, s.Created i) ∧
    ∀ i password, s.phase i = .done password .verified →
      ∃ record, s.file = some record ∧ verify derive record password = true := by
  have inv : Inv derive s₀ s :=
    run_invariant (fun s a s' inv ok stepped => inv.step ok stepped) (inv_fresh fresh) safe ran
  have one : s₀.file = none → s.file ≠ none → ∃! i, s.Created i := by
    intro start present
    obtain ⟨i, made⟩ := (inv.origin present).resolve_left (fun old => old start)
    exact ⟨i, made, fun j made' => inv.once j i made' made⟩
  refine ⟨?_, fun old i made => old (inv.created i made).2, one, ?_, ?_⟩
  · rintro before after t record rfl reached present
    rw [run_append, reached] at ran
    exact run_invariant (fun s a s' present ok stepped => file_step present ok stepped) present
      (safe.rest reached) ran
  · rintro start writes ⟨i, password, outcome, finished⟩
    have none' : ∀ j, Tried (s₀.phase j) → s₀.file ≠ none := by
      intro j tried
      rw [fresh] at tried
      exact tried.elim
    have held : ∀ j, Tried (s.phase j) → s.file ≠ none :=
      run_invariant (I := fun s : State σ => ∀ j, Tried (s.phase j) → s.file ≠ none)
        (fun s a s' held ok stepped => written_step held ok stepped) none' writes ran
    exact one start (held i (by rw [finished]; trivial))
  · intro i password finished
    have fine := (inv.fine i).resolve_left (not_created_of finished nofun)
    rw [finished] at fine
    exact fine

end Runs

/-! ## A file that cannot be opened -/

/-- In place of the key derivation: the first bytes of the password and the salt. -/
def shortDerive (password salt : Bytes) (_ : Nat) : Option Bytes :=
  some ((password ++ salt ++ List.replicate HASH_SIZE 0).take HASH_SIZE)

/-- The account was created with the password `secret`. -/
def opened (σ : Type) : State σ where
  file := makeRecord shortDerive (bytes "secret") (some [1])
  phase _ := .idle

/-- A login with another password, while the server has no file descriptor left when
it looks for the account. -/
def takeover : List (Label Unit) :=
  [.start () (bytes "guessed"), .get () false, .make () (some [2]), .create () false true]

theorem account_replaced : ¬∀ (derive : Bytes → Bytes → Nat → Option Bytes) (s₀ s : State Unit)
    (labels : List (Label Unit)), (∀ i, s₀.phase i = .idle) →
      run (step derive) s₀ labels = some s → ∀ record, s₀.file = some record →
        s.file = some record := by
  intro always
  have differs : ((run (step shortDerive) (opened Unit) takeover).map State.file).any
      (fun file => decide (file ≠ (opened Unit).file)) = true := by
    decide +kernel
  have present : (opened Unit).file.isSome = true := by decide +kernel
  obtain ⟨record, held⟩ := Option.isSome_iff_exists.mp present
  cases ran : run (step shortDerive) (opened Unit) takeover with
  | none =>
    rw [ran] at differs
    cases differs
  | some s =>
    rw [ran, Option.map_some, Option.any_some, decide_eq_true_eq] at differs
    have same := always shortDerive (opened Unit) s takeover (fun _ => rfl) ran record held
    exact differs (same.trans held.symm)

/-- Two logins at the same moment, both before there is an account. -/
def atOnce : List (Label Bool) :=
  [.start true (bytes "secret"), .start false (bytes "secret"), .get true true, .get false true,
    .make false (some [1]), .make true (some [2]), .create true true true, .create false true true,
    .get false true, .verify false]

theorem account_kept_atOnce : ∃ s, run (step shortDerive) ⟨none, fun _ => .idle⟩ atOnce = some s ∧
    (∃! i, s.Created i) ∧ ∃ record, s.file = some record ∧
      verify shortDerive record (bytes "secret") = true := by
  have ends : ((run (step shortDerive) ⟨none, fun _ => .idle⟩ atOnce).map fun s =>
      (s.file.isSome, match s.phase false with
        | .done password .verified => decide (password = bytes "secret")
        | _ => false)) = some (true, true) := by
    decide +kernel
  obtain ⟨s, ran, facts⟩ := Option.map_eq_some_iff.mp ends
  obtain ⟨present, finished⟩ := Prod.mk.inj facts
  have safe : Meets (step shortDerive) Safe ⟨none, fun _ => .idle⟩ atOnce := by
    decide +kernel
  have kept := account_kept (fun _ => rfl) safe ran
  refine ⟨s, ran, kept.2.2.1 rfl (Option.isSome_iff_ne_none.mp present), ?_⟩
  split at finished
  · rename_i password here
    rw [decide_eq_true_eq] at finished
    exact finished ▸ kept.2.2.2.2 false password here
  · cases finished

end SisOp.Logins
