/-
**Steady programs.**

A program is steady for an invariant when it keeps the invariant wherever it ends, and when a run of
it that returns is the run without faults: the program never turns a fault into a value. The rules
follow the program, so that a long sequence of steps is one proof by its parts.
-/

import Camus.Lib.FaultIo

namespace FaultIo

variable {σ ε α β : Type} {invariant : σ → Prop}

/-- **A steady program.** -/
structure Steady (invariant : σ → Prop) (program : FaultIo σ ε α) : Prop where
  keeps : ∀ start faults, invariant start → invariant (program.run start faults).2.1
  completes : ∀ start value final, invariant start → Returns program start value final →
    Completes program start value final

theorem Steady.returned {program : FaultIo σ ε α} (steady : Steady invariant program)
    {start final : σ} {value : α} (holds : invariant start)
    (returned : Returns program start value final) : invariant final := by
  obtain ⟨faults, -, rfl⟩ := returned
  exact steady.keeps start faults holds

/-- What a steady program keeps holds wherever it ends, and what it returns it returns without faults. -/
theorem Steady.meets {program : FaultIo σ ε α} {start : σ} {weaker : σ → Prop}
    (steady : Steady invariant program) (holds : invariant start)
    (implies : ∀ now, invariant now → weaker now) :
    Meets program start (always weaker True fun value final =>
      invariant final ∧ Completes program start value final) := by
  intro faults
  have kept := steady.keeps start faults holds
  match ended : (program.run start faults).1 with
  | .ok value =>
    have returned : Returns program start value _ := ⟨faults, ended, rfl⟩
    exact ⟨implies _ kept, kept, steady.completes start value _ holds returned⟩
  | .refused reason => exact ⟨implies _ kept, trivial⟩
  | .failed reason => exact implies _ kept
  | .crashed => exact implies _ kept

theorem steady_result (value : α) : Steady invariant (result value : FaultIo σ ε α) where
  keeps _ _ holds := holds
  completes start found final _ returned := by
    obtain ⟨rfl, rfl⟩ := returned.result
    exact completes_result found

theorem steady_pure (value : α) : Steady invariant (pure value : FaultIo σ ε α) :=
  steady_result value

theorem steady_refuse (reason : ε) : Steady invariant (refuse reason : FaultIo σ ε α) where
  keeps _ _ holds := holds
  completes start found final _ returned := by
    obtain ⟨faults, never, -⟩ := returned
    cases never

/-- A sequence is steady if its rest is steady for what its first part may return. -/
theorem steady_bind {first : FaultIo σ ε α} {next : α → FaultIo σ ε β}
    (head : Steady invariant first)
    (tail : ∀ value start final, invariant start → Returns first start value final →
      Steady invariant (next value)) : Steady invariant (first >>= next) where
  keeps start faults holds := by
    have kept := head.keeps start faults holds
    show invariant ((andThen first next).run start faults).2.1
    rcases ended : first.run start faults with ⟨outcome, middle, rest⟩
    rw [ended] at kept
    simp only [andThen, ended]
    cases outcome with
    | ok value =>
      have returned : Returns first start value middle := ⟨faults, by rw [ended], by rw [ended]⟩
      exact (tail value start middle holds returned).keeps middle rest kept
    | refused reason => exact kept
    | failed reason => exact kept
    | crashed => exact kept
  completes start value final holds returned := by
    obtain ⟨between, middle, before, after⟩ := returned.bind
    exact completes_bind (head.completes start between middle holds before)
      ((tail between start middle holds before).completes middle value final
        (head.returned holds before) after)

/-- A sequence of steady parts. -/
theorem steady_then {first : FaultIo σ ε α} {next : α → FaultIo σ ε β}
    (head : Steady invariant first) (tail : ∀ value, Steady invariant (next value)) :
    Steady invariant (first >>= next) :=
  steady_bind head fun value _ _ _ _ => tail value

/-- What is read satisfies the invariant. -/
theorem steady_read_bind {next : σ → FaultIo σ ε α}
    (tail : ∀ now, invariant now → Steady invariant (next now)) :
    Steady invariant (read >>= next) := by
  refine steady_bind ⟨fun _ _ holds => holds, fun start value final _ returned => ?_⟩
    fun now start final holds returned => ?_
  · obtain ⟨rfl, rfl⟩ := returned.read
    exact completes_read
  · obtain ⟨rfl, rfl⟩ := returned.read
    exact tail _ holds

theorem steady_step {effect : σ → σ} {partly : Nat → σ → σ} {reason : ε}
    (done : ∀ now, invariant now → invariant (effect now))
    (interrupted : ∀ now progress, invariant now → invariant (partly progress now)) :
    Steady invariant (step effect partly reason) where
  keeps start faults holds := by
    match faults with
    | [] => exact done start holds
    | .proceed :: rest => exact done start holds
    | .fail progress :: rest => exact interrupted start progress holds
    | .crash progress :: rest => exact interrupted start progress holds
  completes start value final _ returned := by
    obtain rfl := returned.step
    exact completes_step _ _ _

theorem steady_observe (reason : ε) : Steady invariant (observe reason : FaultIo σ ε Unit) :=
  steady_step (fun _ holds => holds) fun _ _ holds => holds

theorem steady_require (condition : Bool) (reason : ε) :
    Steady invariant (require condition reason : FaultIo σ ε Unit) := by
  cases condition with
  | true => exact steady_result ()
  | false => exact steady_refuse reason

theorem steady_ofExcept (value : Except ε α) :
    Steady invariant (ofExcept value : FaultIo σ ε α) := by
  cases value with
  | ok found => exact steady_result found
  | error reason => exact steady_refuse reason

theorem steady_ofOption (reason : ε) (value : Option α) :
    Steady invariant (ofOption reason value : FaultIo σ ε α) := by
  cases value with
  | some found => exact steady_result found
  | none => exact steady_refuse reason

/-- What an optional holds is known to the rest. -/
theorem steady_ofOption_bind {reason : ε} {computed : Option α} {next : α → FaultIo σ ε β}
    (tail : ∀ value, computed = some value → Steady invariant (next value)) :
    Steady invariant (ofOption reason computed >>= next) :=
  steady_bind (steady_ofOption reason computed) fun value _ _ _ returned =>
    tail value returned.ofOption.1

/-- Sequences may be regrouped. -/
theorem bind_regroup {γ : Type} (first : FaultIo σ ε α) (next : α → FaultIo σ ε β)
    (last : β → FaultIo σ ε γ) :
    (first >>= next) >>= last = first >>= fun value => next value >>= last := by
  have same : ∀ start faults, (andThen (andThen first next) last).run start faults =
      (andThen first fun value => andThen (next value) last).run start faults := by
    intro start faults
    simp only [andThen]
    obtain ⟨outcome, middle, rest⟩ := first.run start faults
    cases outcome <;> rfl
  show andThen (andThen first next) last = andThen first fun value => andThen (next value) last
  cases left : andThen (andThen first next) last with
  | mk run quiet =>
    cases right : andThen first fun value => andThen (next value) last with
    | mk other _ =>
      have runs : run = other := by
        funext start faults
        have held := same start faults
        rw [left, right] at held
        exact held
      subst runs
      rfl

/-- After a first part that completes, a run without faults is a run of the rest. -/
theorem Completes.run_bind {first : FaultIo σ ε α} {next : α → FaultIo σ ε β} {start middle : σ}
    {between : α} (head : Completes first start between middle) :
    (first >>= next).run start [] = (next between).run middle [] := by
  show (andThen first next).run start [] = _
  simp only [andThen]
  rw [head]

/-- After a first part that refuses, nothing runs. -/
theorem run_bind_of_refused {first : FaultIo σ ε α} {next : α → FaultIo σ ε β} {start final : σ}
    {reason : ε} (refused : first.run start [] = (.refused reason, final, [])) :
    (first >>= next).run start [] = (.refused reason, final, []) := by
  show (andThen first next).run start [] = _
  simp only [andThen]
  rw [refused]

end FaultIo
