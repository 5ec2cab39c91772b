/-
**Machines that take actions in any order.**

A machine says what an action does in a state, if it can be taken there. A schedule is any list of
actions; one that cannot be taken is passed over. The rules carry an invariant along a schedule.
-/

namespace Machine

variable {σ α : Type} {act : σ → α → Option σ}

/-- One transition of a machine. -/
structure Transition (σ α : Type) where
  before : σ
  action : α
  after : σ

/-- The transitions of a schedule. -/
def transitions (act : σ → α → Option σ) : σ → List α → List (Transition σ α)
  | _, [] => []
  | state, action :: rest =>
    match act state action with
    | none => transitions act state rest
    | some next => ⟨state, action, next⟩ :: transitions act next rest

/-- The state after a schedule. -/
def outcome (act : σ → α → Option σ) : σ → List α → σ
  | state, [] => state
  | state, action :: rest => outcome act ((act state action).getD state) rest

/-- The invariant rule for schedules whose transitions all meet a condition. -/
theorem forall_transitions_of {invariant : σ → Prop} {holds condition : Transition σ α → Prop}
    (step : ∀ state action next, invariant state → act state action = some next →
      condition ⟨state, action, next⟩ → invariant next ∧ holds ⟨state, action, next⟩)
    (schedule : List α) {start : σ} (good : invariant start)
    (met : ∀ transition ∈ transitions act start schedule, condition transition) :
    ∀ transition ∈ transitions act start schedule, holds transition := by
  induction schedule generalizing start with
  | nil => simp [transitions]
  | cons action rest ih =>
    rw [transitions] at met ⊢
    cases taken : act start action with
    | none =>
      rw [taken] at met
      exact ih good met
    | some next =>
      rw [taken] at met
      obtain ⟨here, later⟩ := List.forall_mem_cons.mp met
      obtain ⟨stays, shown⟩ := step start action next good taken here
      exact List.forall_mem_cons.mpr ⟨shown, ih stays later⟩

/-- A transition of a schedule is a step of the machine. -/
theorem act_of_mem {schedule : List α} {start : σ} :
    ∀ transition ∈ transitions act start schedule,
      act transition.before transition.action = some transition.after :=
  forall_transitions_of (fun _ _ _ _ taken _ => ⟨trivial, taken⟩) schedule
    (trivial : (fun _ => True) start) fun _ _ => (trivial : (fun _ => True) _)

end Machine
