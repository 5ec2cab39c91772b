/-
**Programs that return an error.**

What is known of a program that returned an error, by inversion along its sequence of steps (`Errs.bind`
and the rules for the single steps), and what errors a program can return at all (`Raises`).
-/

import Camus.Lib.FaultIo

namespace FaultIo

variable {condition : Bool}

variable {σ τ ε α β : Type}

/-! ### Inversion -/

section Erred

variable {start final : σ} {reason : ε}

/-- **A sequence returns an error** of its first program, or of its second one. -/
theorem Errs.bind {first : FaultIo σ ε α} {next : α → FaultIo σ ε β}
    (erred : Errs (first >>= next) start reason final) :
    Errs first start reason final ∨
      ∃ between middle, Returns first start between middle ∧ Errs (next between) middle reason final := by
  obtain ⟨faults, outcome, state⟩ := erred
  change ((andThen first next).run start faults).1.error? = _ at outcome
  change ((andThen first next).run start faults).2.1 = _ at state
  simp only [andThen] at outcome state
  rcases ended : first.run start faults with ⟨left, middle, rest⟩
  rw [ended] at outcome state
  cases left with
  | ok between =>
    exact .inr ⟨between, middle, ⟨faults, by rw [ended], by rw [ended]⟩, ⟨rest, outcome, state⟩⟩
  | refused other => exact .inl ⟨faults, by rw [ended]; exact outcome, by rw [ended]; exact state⟩
  | failed other => exact .inl ⟨faults, by rw [ended]; exact outcome, by rw [ended]; exact state⟩
  | crashed => cases outcome

theorem Errs.result {value : α} (erred : Errs (result value : FaultIo σ ε α) start reason final) :
    False := by
  obtain ⟨faults, outcome, -⟩ := erred
  cases outcome

theorem Errs.step {effect : σ → σ} {partly : Nat → σ → σ} {cause : ε}
    (erred : Errs (step effect partly cause) start reason final) :
    reason = cause ∧ ∃ progress, final = partly progress start := by
  obtain ⟨faults, outcome, state⟩ := erred
  match faults with
  | [] => cases outcome
  | .proceed :: rest => cases outcome
  | .fail progress :: rest =>
    cases outcome
    exact ⟨rfl, progress, state.symm⟩
  | .crash progress :: rest => cases outcome

theorem Errs.require {cause : ε}
    (erred : Errs (require condition cause : FaultIo σ ε Unit) start reason final) :
    condition = false ∧ reason = cause ∧ final = start := by
  obtain ⟨faults, outcome, state⟩ := erred
  cases condition with
  | true => cases outcome
  | false =>
    cases outcome
    exact ⟨rfl, rfl, state.symm⟩

theorem Errs.ofExcept {value : Except ε α}
    (erred : Errs (ofExcept value : FaultIo σ ε α) start reason final) :
    value = .error reason ∧ final = start := by
  obtain ⟨faults, outcome, state⟩ := erred
  cases value with
  | ok known => cases outcome
  | error other =>
    cases outcome
    exact ⟨rfl, state.symm⟩

theorem Errs.ofOption {cause : ε} {value : Option α}
    (erred : Errs (ofOption cause value : FaultIo σ ε α) start reason final) :
    value = none ∧ reason = cause ∧ final = start := by
  obtain ⟨faults, outcome, state⟩ := erred
  cases value with
  | some known => cases outcome
  | none =>
    cases outcome
    exact ⟨rfl, rfl, state.symm⟩

theorem Errs.focus {part : σ → τ} {replace : τ → σ → σ} {program : FaultIo τ ε α}
    (erred : Errs (focus part replace program) start reason final) :
    ∃ last, Errs program (part start) reason last ∧ final = replace last start := by
  obtain ⟨faults, isReason, isFinal⟩ := erred
  exact ⟨_, ⟨faults, isReason, rfl⟩, isFinal.symm⟩

section Sequences

theorem Errs.bind_update {change : σ → σ} {next : Unit → FaultIo σ ε β}
    (erred : Errs (FaultIo.update change >>= next) start reason final) :
    Errs (next ()) (change start) reason final := by
  rcases erred.bind with first | ⟨_, _, first, later⟩
  · obtain ⟨faults, outcome, -⟩ := first
    cases outcome
  · rw [← first.update]
    exact later

theorem Errs.bind_require {cause : ε} {next : Unit → FaultIo σ ε β}
    (erred : Errs (FaultIo.require condition cause >>= next) start reason final) :
    (condition = false ∧ reason = cause ∧ final = start) ∨
      (condition = true ∧ Errs (next ()) start reason final) := by
  rcases erred.bind with first | ⟨_, _, first, later⟩
  · exact .inl first.require
  · obtain ⟨holds, rfl⟩ := first.require
    exact .inr ⟨holds, later⟩

theorem Errs.bind_ofExcept {computed : Except ε α} {next : α → FaultIo σ ε β}
    (erred : Errs (FaultIo.ofExcept computed >>= next) start reason final) :
    (computed = .error reason ∧ final = start) ∨
      ∃ found, computed = .ok found ∧ Errs (next found) start reason final := by
  rcases erred.bind with first | ⟨found, _, first, later⟩
  · exact .inl first.ofExcept
  · obtain ⟨isOk, rfl⟩ := first.ofExcept
    exact .inr ⟨found, isOk, later⟩

theorem Errs.bind_ofOption {cause : ε} {computed : Option α} {next : α → FaultIo σ ε β}
    (erred : Errs (FaultIo.ofOption cause computed >>= next) start reason final) :
    (computed = none ∧ reason = cause ∧ final = start) ∨
      ∃ found, computed = some found ∧ Errs (next found) start reason final := by
  rcases erred.bind with first | ⟨found, _, first, later⟩
  · exact .inl first.ofOption
  · obtain ⟨isSome, rfl⟩ := first.ofOption
    exact .inr ⟨found, isSome, later⟩

end Sequences

end Erred

/-! ### Possible errors -/

/-- **Every error the program can return is allowed.** -/
def Raises (program : FaultIo σ ε α) (allowed : ε → Prop) : Prop :=
  ∀ start reason final, Errs program start reason final → allowed reason

section Rules

variable {allowed : ε → Prop}

theorem raises_result {value : α} : Raises (result value : FaultIo σ ε α) allowed :=
  fun _ _ _ erred => erred.result.elim

theorem raises_bind {first : FaultIo σ ε α} {next : α → FaultIo σ ε β} (head : Raises first allowed)
    (tail : ∀ value, Raises (next value) allowed) : Raises (first >>= next) allowed := by
  intro start reason final erred
  rcases erred.bind with first | ⟨value, middle, -, later⟩
  · exact head _ _ _ first
  · exact tail value _ _ _ later

theorem raises_step {effect : σ → σ} {partly : Nat → σ → σ} {cause : ε} (isAllowed : allowed cause) :
    Raises (step effect partly cause) allowed := by
  intro start reason final erred
  rw [erred.step.1]
  exact isAllowed

theorem raises_observe {cause : ε} (isAllowed : allowed cause) :
    Raises (observe cause : FaultIo σ ε Unit) allowed := raises_step isAllowed

theorem raises_read : Raises (read : FaultIo σ ε σ) allowed := by
  rintro start reason final ⟨faults, outcome, -⟩
  cases outcome

theorem raises_update {change : σ → σ} : Raises (update change : FaultIo σ ε Unit) allowed := by
  rintro start reason final ⟨faults, outcome, -⟩
  cases outcome

theorem raises_require {cause : ε} (isAllowed : allowed cause) :
    Raises (require condition cause : FaultIo σ ε Unit) allowed := by
  intro start reason final erred
  rw [erred.require.2.1]
  exact isAllowed

theorem raises_ofExcept {value : Except ε α} (isAllowed : ∀ reason, value = .error reason → allowed reason) :
    Raises (ofExcept value : FaultIo σ ε α) allowed :=
  fun _ reason _ erred => isAllowed reason erred.ofExcept.1

theorem raises_ofOption {cause : ε} {value : Option α} (isAllowed : allowed cause) :
    Raises (ofOption cause value : FaultIo σ ε α) allowed := by
  intro start reason final erred
  rw [erred.ofOption.2.1]
  exact isAllowed

theorem raises_focus {part : σ → τ} {replace : τ → σ → σ} {program : FaultIo τ ε α}
    (raises : Raises program allowed) : Raises (focus part replace program) allowed := by
  intro start reason final erred
  obtain ⟨last, inner, -⟩ := erred.focus
  exact raises _ _ _ inner

end Rules

end FaultIo
