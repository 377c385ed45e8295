import SisOp.Cluster.Handlers

/-!
# One round of an election

A round of `run_election` on one server, from the reset of `coordinator_seen_`
to the decision, with every other thread of the server in between.

Main result: `no_stale_takeover_iff`, a server to which a higher one announced
itself during the round does not take over exactly when a higher one answered it
too: the announcement itself is not looked at.
-/

namespace SisOp.Election

open Lib Handlers

variable {L : Type}

/-- How the calls of the round ended. -/
def answers (labels : List (Label L)) : List Bool :=
  labels.filterMap fun
    | .ask answered => some answered
    | _ => none

/-- A handler takes a higher-ranked server for the new primary. -/
def Accepts (s : State L) : Label L → Prop
  | .coordinator leader => s.cluster.self.id < leader.id
  | .replicaAttach _ primary _ => s.cluster.self.id < primary.id
  | _ => False

/-- That happens somewhere on the run. -/
def Announced [DecidableEq L] (s : State L) (labels : List (Label L)) : Prop :=
  ∃ before label after t, labels = before ++ label :: after ∧ run step s before = some t ∧
    Accepts t label

section Steps

variable {s s' : State L} {label : Label L} {labels : List (Label L)}
variable {todo : List ServerAddress} {higherAlive : Bool}

/-- A handler moves on: it makes nobody primary. -/
theorem stepTask_role (c : Cluster L) (outcome : Outcome L) (task : Task) :
    (stepTask c outcome task).1.role = c.role := by
  cases task with
  | assign host port =>
    dsimp only [stepTask]
    split
    · rw [Cluster.assignId]
      split <;> rfl
    · rfl
  | attach member joins => cases outcome <;> rfl
  | tell todo failed => cases todo <;> cases outcome <;> rfl
  | drop id =>
    dsimp only [stepTask]
    split <;> rfl
  | _ => rfl

variable [DecidableEq L]

/-- Before the decision an answer is all that changes the round, and no handler
makes the server primary. -/
theorem step_asking (asking : s.election = .asking todo higherAlive)
    (role : s.cluster.role ≠ .primary) (undecided : label ≠ .decide)
    (stepped : step s label = some s') :
    s'.cluster.role ≠ .primary ∧
      ((∃ answered rest, label = .ask answered ∧
          s'.election = .asking rest (higherAlive || answered)) ∨
        answers [label] = [] ∧ s'.election = s.election) := by
  have start : s.election.start = s.election := by
    rw [asking]
    rfl
  cases label with
  | decide => exact absurd rfl undecided
  | ask answered =>
    simp only [step, asking] at stepped
    split at stepped <;> cases stepped
    rename_i same
    cases same
    exact ⟨role, .inl ⟨answered, _, rfl, rfl⟩⟩
  | startAsPrimary =>
    simp only [step] at stepped
    split at stepped <;> cases stepped
    rename_i fresh
    cases asking.symm.trans fresh.2
  | joined id primaryId host port =>
    simp only [step] at stepped
    split at stepped <;> cases stepped
    exact ⟨nofun, .inr ⟨rfl, rfl⟩⟩
  | handleElection candidate =>
    simp only [step] at stepped
    split at stepped <;> cases stepped
    · exact ⟨role, .inr ⟨rfl, rfl⟩⟩
    · exact ⟨role, .inr ⟨rfl, start⟩⟩
  | coordinator leader =>
    simp only [step] at stepped
    split at stepped <;> cases stepped
    · exact ⟨role, .inr ⟨rfl, start⟩⟩
    · exact ⟨nofun, .inr ⟨rfl, rfl⟩⟩
  | replicaAttach conn primary members =>
    cases stepped
    exact ⟨nofun, .inr ⟨rfl, rfl⟩⟩
  | membership conn members =>
    simp only [step] at stepped
    split at stepped <;> cases stepped
    all_goals exact ⟨role, .inr ⟨rfl, rfl⟩⟩
  | linkClosed conn =>
    simp only [step] at stepped
    split at stepped <;> cases stepped
    · exact ⟨role, .inr ⟨rfl, start⟩⟩
    · exact ⟨role, .inr ⟨rfl, rfl⟩⟩
  | startElection =>
    cases stepped
    exact ⟨role, .inr ⟨rfl, start⟩⟩
  | task k outcome =>
    simp only [step] at stepped
    split at stepped <;> cases stepped
    rename_i task rest found
    exact ⟨fun is => role ((stepTask_role s.cluster outcome task).symm.trans is),
      .inr ⟨rfl, rfl⟩⟩
  | startRound | wake | lead =>
    simp only [step, asking] at stepped
    cases stepped
  | handleJoin | manifestBuilt | dropLink =>
    cases stepped
    exact ⟨role, .inr ⟨rfl, rfl⟩⟩

/-- What a round has found out when every thread has moved as it did. -/
theorem run_asking (asking : s.election = .asking todo higherAlive)
    (role : s.cluster.role ≠ .primary) (undecided : .decide ∉ labels)
    (ran : run step s labels = some s') :
    s'.cluster.role ≠ .primary ∧ ∃ rest alive, s'.election = .asking rest alive ∧
      (alive = true ↔ higherAlive = true ∨ true ∈ answers labels) := by
  induction labels generalizing s todo higherAlive with
  | nil =>
    cases ran
    exact ⟨role, todo, higherAlive, asking, by simp [answers]⟩
  | cons label labels ih =>
    obtain ⟨t, stepped, onwards⟩ := run_cons_eq_some.mp ran
    have first : label ≠ .decide := fun same => undecided (same ▸ List.mem_cons_self)
    have later : .decide ∉ labels := fun mem => undecided (List.mem_cons_of_mem _ mem)
    have cut : true ∈ answers (label :: labels) ↔
        true ∈ answers [label] ∨ true ∈ answers labels := by
      rw [← List.mem_append, answers, answers, answers, ← List.filterMap_append]
      rfl
    rw [cut]
    obtain ⟨role, ⟨answered, rest, rfl, moved⟩ | ⟨silent, still⟩⟩ :=
      step_asking asking role first stepped
    · obtain ⟨role, rest, alive, reached, known⟩ := ih moved role later onwards
      refine ⟨role, rest, alive, reached, known.trans ?_⟩
      rw [Bool.or_eq_true, or_assoc]
      simp [answers, eq_comm]
    · obtain ⟨role, rest, alive, reached, known⟩ := ih (still.trans asking) role later onwards
      refine ⟨role, rest, alive, reached, known.trans ?_⟩
      simp [silent]

end Steps

/-- A server to which a higher one announced itself during a round stays out of
it exactly when a higher one answered, whatever the other threads did. -/
theorem no_stale_takeover_iff [DecidableEq L] {s t s' : State L} {labels : List (Label L)}
    (starting : step s .startRound = some t) (role : s.cluster.role ≠ .primary)
    (undecided : .decide ∉ labels) (ran : run step t labels = some s') {d : State L}
    (decided : step s' .decide = some d) :
    (Announced t labels → d.cluster.role ≠ .primary) ↔
      true ∈ answers labels ∨ ¬Announced t labels := by
  obtain ⟨asking, kept⟩ : t.election = .asking s.cluster.startRound.2 false ∧
      t.cluster.role = s.cluster.role := by
    simp only [step] at starting
    split at starting
    · cases starting
      exact ⟨rfl, rfl⟩
    · cases starting
  obtain ⟨waits, rest, alive, reached, known⟩ := run_asking asking (kept ▸ role) undecided ran
  -- The decision looks at the answers only.
  have taken : d.cluster.role ≠ .primary ↔ true ∈ answers labels := by
    rw [← known.trans (or_iff_right Bool.false_ne_true)]
    simp only [step, reached] at decided
    split at decided <;> cases decided
    · rename_i same
      cases same
      exact ⟨fun _ => rfl, fun _ => waits⟩
    · rename_i same
      cases same
      exact ⟨fun is => (is rfl).elim, nofun⟩
  rw [taken, or_comm]
  exact imp_iff_not_or

section Examples

/-- A backup of 1000, after 999, whose link closes. -/
def backup : List (Label Nat) :=
  [.joined 998 1000 (bytes "a") 1,
    .replicaAttach 0 ⟨1000, bytes "a", 1⟩ [⟨1000, bytes "a", 1⟩, ⟨999, bytes "b", 1⟩],
    .manifestBuilt, .linkClosed 0]

/-- The call to 999 fails, but its announcement arrives before the round is
decided. -/
theorem stale_takeover :
    ¬∀ (s t s' d : State Nat) (labels : List (Label Nat)), step s .startRound = some t →
      s.cluster.role ≠ .primary → .decide ∉ labels → run step t labels = some s' →
      step s' .decide = some d → Announced t labels → d.cluster.role ≠ .primary := by
  intro claim
  obtain ⟨s, -, t, starting, role, below, s', ran, d, decided, taken⟩ :
      ∃ s, run step (init (bytes "c") 1) backup = some s ∧
        ∃ t, step s .startRound = some t ∧ s.cluster.role ≠ .primary ∧
          t.cluster.self.id < 999 ∧
        ∃ s', run step t [.coordinator ⟨999, bytes "b", 1⟩, .ask false, .ask false] = some s' ∧
        ∃ d, step s' .decide = some d ∧ d.cluster.role = .primary :=
    ⟨_, rfl, _, rfl, by decide, by decide, _, rfl, _, rfl, rfl⟩
  exact claim s t s' d _ starting role (by simp) ran decided ⟨[], _, _, t, rfl, rfl, below⟩ taken

/-- When 999 answers as well, the server waits for it. -/
theorem no_stale_takeover_answered :
    ∃ s t s' d : State Nat, run step (init (bytes "c") 1) backup = some s ∧
      step s .startRound = some t ∧
      run step t [.coordinator ⟨999, bytes "b", 1⟩, .ask false, .ask true] = some s' ∧
      step s' .decide = some d ∧
      Announced t [.coordinator ⟨999, bytes "b", 1⟩, .ask false, .ask true] ∧
      d.cluster.role ≠ .primary := by
  obtain ⟨s, begun, t, starting, role, below, s', ran, d, decided⟩ :
      ∃ s, run step (init (bytes "c") 1) backup = some s ∧
        ∃ t, step s .startRound = some t ∧ s.cluster.role ≠ .primary ∧
          t.cluster.self.id < 999 ∧
        ∃ s', run step t [.coordinator ⟨999, bytes "b", 1⟩, .ask false, .ask true] = some s' ∧
        ∃ d, step s' .decide = some d :=
    ⟨_, rfl, _, rfl, by decide, by decide, _, rfl, _, rfl⟩
  have announced : Announced t [.coordinator ⟨999, bytes "b", 1⟩, .ask false, .ask true] :=
    ⟨[], _, _, t, rfl, rfl, below⟩
  exact ⟨s, t, s', d, begun, starting, ran, decided, announced,
    (no_stale_takeover_iff starting role (by simp) ran decided).mpr (.inl (by decide)) announced⟩

end Examples

end SisOp.Election
