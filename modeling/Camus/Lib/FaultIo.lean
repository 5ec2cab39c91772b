/-
**Programs that may fail or stop at every I/O step.**

`FaultIo σ ε α` is a program over a state `σ` whose I/O steps each consult a schedule of faults: a
step proceeds, fails after some progress, or the machine stops after some progress. The state is
kept on every outcome, so that the state at a stop is what a crash finds.

* `Outcome` separates an error the program decides on (`refused`) from one an I/O step injected
  (`failed`); a program without faults can only return or refuse (`FaultIo.quiet`).
* `Meets m s post`: whatever the schedule, running `m` from `s` ends in a state the postcondition
  allows for that outcome. `meets_bind`, `meets_step` and their siblings are the
  rules the proofs of a program use.
-/

import Mathlib.Tactic.Common

/-- What happens to one I/O step. -/
inductive Fault where
  | proceed
  | fail (progress : Nat)
  | crash (progress : Nat)
deriving Repr, DecidableEq

/-- How a program ends. -/
inductive Outcome (ε α : Type) where
  | ok (value : α)
  | refused (reason : ε)
  | failed (reason : ε)
  | crashed
deriving Repr, DecidableEq

namespace Outcome

variable {condition : Bool} {sometimes : Prop}

variable {ε α : Type}

/-- The program decided the outcome itself. -/
def Deliberate : Outcome ε α → Prop
  | .ok _ => True
  | .refused _ => True
  | .failed _ => False
  | .crashed => False

/-- The error, if the program returned one to its caller. -/
def error? : Outcome ε α → Option ε
  | .refused reason => some reason
  | .failed reason => some reason
  | _ => none

/-- The program returned. -/
def isOk : Outcome ε α → Bool
  | .ok _ => true
  | _ => false

end Outcome

/-- **A program with faults.** Without a fault left to happen it never fails or stops. -/
structure FaultIo (σ ε α : Type) where
  run : σ → List Fault → Outcome ε α × σ × List Fault
  quiet : ∀ start, (run start []).1.Deliberate ∧ (run start []).2.2 = []

namespace FaultIo

variable {σ τ ε α β : Type}

/-! ### Programs -/

/-- Returns a value and does nothing. -/
def result (value : α) : FaultIo σ ε α where
  run start faults := (.ok value, start, faults)
  quiet _ := ⟨trivial, rfl⟩

/-- Returns an error and does nothing. -/
def refuse (reason : ε) : FaultIo σ ε α where
  run start faults := (.refused reason, start, faults)
  quiet _ := ⟨trivial, rfl⟩

/-- Runs one program and, if it returns, the next. -/
def andThen (first : FaultIo σ ε α) (next : α → FaultIo σ ε β) : FaultIo σ ε β where
  run start faults :=
    match first.run start faults with
    | (.ok value, middle, rest) => (next value).run middle rest
    | (.refused reason, final, rest) => (.refused reason, final, rest)
    | (.failed reason, final, rest) => (.failed reason, final, rest)
    | (.crashed, final, rest) => (.crashed, final, rest)
  quiet start := by
    have calm := first.quiet start
    match ended : first.run start [] with
    | (.ok value, middle, rest) =>
      rw [ended] at calm
      obtain ⟨-, spent⟩ := calm
      simp only at spent ⊢
      rw [spent]
      exact (next value).quiet middle
    | (.refused reason, final, rest) =>
      rw [ended] at calm
      exact ⟨trivial, calm.2⟩
    | (.failed reason, final, rest) =>
      rw [ended] at calm
      exact calm.1.elim
    | (.crashed, final, rest) =>
      rw [ended] at calm
      exact calm.1.elim

instance : Monad (FaultIo σ ε) where
  pure := result
  bind := andThen

/-- One I/O step: its effect, what of it is done when it does not complete, and its error. -/
def step (effect : σ → σ) (partly : Nat → σ → σ) (reason : ε) : FaultIo σ ε Unit where
  run start faults :=
    match faults with
    | [] => (.ok (), effect start, [])
    | .proceed :: rest => (.ok (), effect start, rest)
    | .fail progress :: rest => (.failed reason, partly progress start, rest)
    | .crash progress :: rest => (.crashed, partly progress start, rest)
  quiet _ := ⟨trivial, rfl⟩

/-- An I/O step that only observes the state. -/
def observe (reason : ε) : FaultIo σ ε Unit := step id (fun _ => id) reason

/-- Reads the state. -/
def read : FaultIo σ ε σ where
  run start faults := (.ok start, start, faults)
  quiet _ := ⟨trivial, rfl⟩

/-- Updates the state in memory, which is no I/O. -/
def update (change : σ → σ) : FaultIo σ ε Unit where
  run start faults := (.ok (), change start, faults)
  quiet _ := ⟨trivial, rfl⟩

/-- Returns an error unless a condition holds. -/
def require (condition : Bool) (reason : ε) : FaultIo σ ε Unit :=
  if condition then result () else refuse reason

/-- The value of a pure computation that may fail. -/
def ofExcept : Except ε α → FaultIo σ ε α
  | .ok value => result value
  | .error reason => refuse reason

/-- The value of an optional, or an error. -/
def ofOption (reason : ε) : Option α → FaultIo σ ε α
  | some value => result value
  | none => refuse reason

/-- Runs a program and hands the errors it may recover from to the caller. -/
def attempt (caught : ε → Bool) (program : FaultIo σ ε α) : FaultIo σ ε (Except ε α) where
  run start faults :=
    match program.run start faults with
    | (.ok value, final, rest) => (.ok (.ok value), final, rest)
    | (.refused reason, final, rest) =>
      (if caught reason then .ok (.error reason) else .refused reason, final, rest)
    | (.failed reason, final, rest) =>
      (if caught reason then .ok (.error reason) else .failed reason, final, rest)
    | (.crashed, final, rest) => (.crashed, final, rest)
  quiet start := by
    have calm := program.quiet start
    match ended : program.run start [] with
    | (.ok value, final, rest) =>
      rw [ended] at calm
      exact ⟨trivial, calm.2⟩
    | (.refused reason, final, rest) =>
      rw [ended] at calm
      refine ⟨?_, calm.2⟩
      simp only
      split <;> trivial
    | (.failed reason, final, rest) =>
      rw [ended] at calm
      exact calm.1.elim
    | (.crashed, final, rest) =>
      rw [ended] at calm
      exact calm.1.elim

/-- Runs a program on a part of the state. -/
def focus (part : σ → τ) (replace : τ → σ → σ) (program : FaultIo τ ε α) : FaultIo σ ε α where
  run start faults :=
    match program.run (part start) faults with
    | (outcome, final, rest) => (outcome, replace final start, rest)
  quiet start := program.quiet (part start)

/-! ### Postconditions -/

/-- **A postcondition**, by outcome. -/
structure Post (σ ε α : Type) where
  returns : α → σ → Prop
  refuses : ε → σ → Prop
  fails : ε → σ → Prop
  stops : σ → Prop

/-- An outcome and a final state satisfy a postcondition. -/
def Post.Holds (post : Post σ ε α) : Outcome ε α → σ → Prop
  | .ok value, final => post.returns value final
  | .refused reason, final => post.refuses reason final
  | .failed reason, final => post.fails reason final
  | .crashed, final => post.stops final

/-- The postcondition of the first program of a sequence. -/
def Post.first (post : Post σ ε β) (returns : α → σ → Prop) : Post σ ε α where
  returns := returns
  refuses := post.refuses
  fails := post.fails
  stops := post.stops

/-- **A program meets a postcondition** from a state, whatever the schedule of faults. -/
def Meets (program : FaultIo σ ε α) (start : σ) (post : Post σ ε α) : Prop :=
  ∀ faults, post.Holds (program.run start faults).1 (program.run start faults).2.1

section Rules

variable {program : FaultIo σ ε α} {start : σ} {post : Post σ ε α}

theorem Meets.mono {weaker : Post σ ε α} (meets : Meets program start post)
    (returns : ∀ value final, post.returns value final → weaker.returns value final)
    (refuses : ∀ reason final, post.refuses reason final → weaker.refuses reason final)
    (fails : ∀ reason final, post.fails reason final → weaker.fails reason final)
    (stops : ∀ final, post.stops final → weaker.stops final) : Meets program start weaker := by
  intro faults
  have held := meets faults
  match ended : (program.run start faults).1 with
  | .ok value => rw [ended] at held; exact returns value _ held
  | .refused reason => rw [ended] at held; exact refuses reason _ held
  | .failed reason => rw [ended] at held; exact fails reason _ held
  | .crashed => rw [ended] at held; exact stops _ held

theorem meets_result {value : α} (holds : post.returns value start) :
    Meets (result value) start post := fun _ => holds

theorem meets_pure {value : α} (holds : post.returns value start) :
    Meets (pure value) start post := fun _ => holds

theorem meets_refuse {reason : ε} (holds : post.refuses reason start) :
    Meets (refuse reason) start post := fun _ => holds

theorem meets_bind {next : α → FaultIo σ ε β} {post : Post σ ε β}
    (meets : Meets program start
      (post.first fun value middle => Meets (next value) middle post)) :
    Meets (program >>= next) start post := by
  intro faults
  have held := meets faults
  show post.Holds ((andThen program next).run start faults).1
    ((andThen program next).run start faults).2.1
  match ended : program.run start faults with
  | (.ok value, middle, rest) =>
    rw [ended] at held
    simp only [andThen, ended]
    exact held rest
  | (.refused reason, final, rest) => rw [ended] at held; simp only [andThen, ended]; exact held
  | (.failed reason, final, rest) => rw [ended] at held; simp only [andThen, ended]; exact held
  | (.crashed, final, rest) => rw [ended] at held; simp only [andThen, ended]; exact held

theorem meets_step {effect : σ → σ} {partly : Nat → σ → σ} {reason : ε} {post : Post σ ε Unit}
    (returns : post.returns () (effect start))
    (fails : ∀ progress, post.fails reason (partly progress start))
    (stops : ∀ progress, post.stops (partly progress start)) :
    Meets (step effect partly reason) start post := by
  intro faults
  match faults with
  | [] => exact returns
  | .proceed :: rest => exact returns
  | .fail progress :: rest => exact fails progress
  | .crash progress :: rest => exact stops progress

theorem meets_observe {reason : ε} {post : Post σ ε Unit} (returns : post.returns () start)
    (fails : post.fails reason start) (stops : post.stops start) :
    Meets (observe reason) start post :=
  meets_step returns (fun _ => fails) (fun _ => stops)

theorem meets_read {post : Post σ ε σ} (returns : post.returns start start) :
    Meets read start post := fun _ => returns

theorem meets_require {reason : ε} {post : Post σ ε Unit}
    (returns : condition = true → post.returns () start)
    (refuses : condition = false → post.refuses reason start) :
    Meets (require condition reason) start post := by
  unfold require
  by_cases holds : condition = true
  · rw [if_pos holds]
    exact meets_result (returns holds)
  · rw [if_neg holds]
    exact meets_refuse (refuses (by simpa using holds))

theorem meets_ofExcept {value : Except ε α} (returns : ∀ a, value = .ok a → post.returns a start)
    (refuses : ∀ reason, value = .error reason → post.refuses reason start) :
    Meets (ofExcept value) start post := by
  cases value with
  | ok a => exact meets_result (returns a rfl)
  | error reason => exact meets_refuse (refuses reason rfl)

theorem meets_ofOption {reason : ε} {value : Option α}
    (returns : ∀ a, value = some a → post.returns a start)
    (refuses : value = none → post.refuses reason start) :
    Meets (ofOption reason value) start post := by
  cases value with
  | some a => exact meets_result (returns a rfl)
  | none => exact meets_refuse (refuses rfl)

end Rules

/-! ### Runs -/

/-- The program may return a value and leave a state, under some schedule of faults. -/
def Returns (program : FaultIo σ ε α) (start : σ) (value : α) (final : σ) : Prop :=
  ∃ faults, (program.run start faults).1 = .ok value ∧ (program.run start faults).2.1 = final

/-- The program may return an error and leave a state. -/
def Errs (program : FaultIo σ ε α) (start : σ) (reason : ε) (final : σ) : Prop :=
  ∃ faults, (program.run start faults).1.error? = some reason ∧
    (program.run start faults).2.1 = final

/-- The machine may stop during the program and leave a state. -/
def Stops (program : FaultIo σ ε α) (start : σ) (final : σ) : Prop :=
  ∃ faults, (program.run start faults).1 = .crashed ∧ (program.run start faults).2.1 = final

/-- Without faults a program returns or refuses. -/
theorem Meets.run_nil {program : FaultIo σ ε α} {start : σ} {post : Post σ ε α}
    (meets : Meets program start post) :
    (∃ value final, program.run start [] = (.ok value, final, []) ∧ post.returns value final) ∨
      ∃ reason final, program.run start [] = (.refused reason, final, []) ∧
        post.refuses reason final := by
  have held := meets []
  have calm := program.quiet start
  match ended : program.run start [] with
  | (.ok value, final, rest) =>
    rw [ended] at held calm
    obtain ⟨-, rfl⟩ := calm
    exact .inl ⟨value, final, rfl, held⟩
  | (.refused reason, final, rest) =>
    rw [ended] at held calm
    obtain ⟨-, rfl⟩ := calm
    exact .inr ⟨reason, final, rfl, held⟩
  | (.failed reason, final, rest) =>
    rw [ended] at calm
    exact calm.1.elim
  | (.crashed, final, rest) =>
    rw [ended] at calm
    exact calm.1.elim

/-! ### Programs that returned -/

section Returned

variable {start final : σ}

theorem Returns.bind {first : FaultIo σ ε α} {next : α → FaultIo σ ε β} {value : β}
    (returned : Returns (first >>= next) start value final) :
    ∃ between middle, Returns first start between middle ∧ Returns (next between) middle value final := by
  obtain ⟨faults, outcome, state⟩ := returned
  change ((andThen first next).run start faults).1 = _ at outcome
  change ((andThen first next).run start faults).2.1 = _ at state
  simp only [andThen] at outcome state
  match ended : first.run start faults with
  | (.ok between, middle, rest) =>
    rw [ended] at outcome state
    exact ⟨between, middle, ⟨faults, by rw [ended], by rw [ended]⟩, ⟨rest, outcome, state⟩⟩
  | (.refused reason, middle, rest) => rw [ended] at outcome; cases outcome
  | (.failed reason, middle, rest) => rw [ended] at outcome; cases outcome
  | (.crashed, middle, rest) => rw [ended] at outcome; cases outcome

theorem Returns.result {value found : α} (returned : Returns (result value : FaultIo σ ε α) start found final) :
    found = value ∧ final = start := by
  obtain ⟨faults, outcome, state⟩ := returned
  cases outcome
  exact ⟨rfl, state.symm⟩

theorem Returns.pure {value found : α} (returned : Returns (pure value : FaultIo σ ε α) start found final) :
    found = value ∧ final = start := Returns.result returned

theorem Returns.step {effect : σ → σ} {partly : Nat → σ → σ} {reason : ε} {found : Unit}
    (returned : Returns (step effect partly reason) start found final) : final = effect start := by
  obtain ⟨faults, outcome, state⟩ := returned
  match faults with
  | [] => exact state.symm
  | .proceed :: rest => exact state.symm
  | .fail progress :: rest => cases outcome
  | .crash progress :: rest => cases outcome

theorem Returns.read {found : σ} (returned : Returns (read : FaultIo σ ε σ) start found final) :
    found = start ∧ final = start := by
  obtain ⟨faults, outcome, state⟩ := returned
  cases outcome
  exact ⟨rfl, state.symm⟩

theorem Returns.update {change : σ → σ} {found : Unit}
    (returned : Returns (update change : FaultIo σ ε Unit) start found final) :
    final = change start := by
  obtain ⟨faults, outcome, state⟩ := returned
  exact state.symm

theorem Returns.require {reason : ε} {found : Unit}
    (returned : Returns (require condition reason : FaultIo σ ε Unit) start found final) :
    condition = true ∧ final = start := by
  cases condition with
  | true => exact ⟨rfl, (Returns.result returned).2⟩
  | false =>
    obtain ⟨faults, outcome, -⟩ := returned
    cases outcome

theorem Returns.ofExcept {value : Except ε α} {found : α}
    (returned : Returns (ofExcept value : FaultIo σ ε α) start found final) :
    value = .ok found ∧ final = start := by
  cases value with
  | ok known =>
    obtain ⟨rfl, same⟩ := Returns.result returned
    exact ⟨rfl, same⟩
  | error reason =>
    obtain ⟨faults, outcome, -⟩ := returned
    cases outcome

theorem Returns.ofOption {reason : ε} {value : Option α} {found : α}
    (returned : Returns (ofOption reason value : FaultIo σ ε α) start found final) :
    value = some found ∧ final = start := by
  cases value with
  | some known =>
    obtain ⟨rfl, same⟩ := Returns.result returned
    exact ⟨rfl, same⟩
  | none =>
    obtain ⟨faults, outcome, -⟩ := returned
    cases outcome

section Sequences

variable {value : β}

theorem Returns.focus {part : σ → τ} {replace : τ → σ → σ} {program : FaultIo τ ε α} {found : α}
    (returned : Returns (focus part replace program) start found final) :
    ∃ last, Returns program (part start) found last ∧ final = replace last start := by
  obtain ⟨faults, isFound, isFinal⟩ := returned
  exact ⟨_, ⟨faults, isFound, rfl⟩, isFinal.symm⟩

/-- What an attempt returns is what the program returned, or an error it may recover from. -/
theorem Returns.attempt {caught : ε → Bool} {program : FaultIo σ ε α} {found : Except ε α}
    (returned : Returns (attempt caught program) start found final) :
    (∃ value, found = .ok value ∧ Returns program start value final) ∨
      ∃ reason, found = .error reason ∧ caught reason = true := by
  obtain ⟨faults, isFound, isFinal⟩ := returned
  simp only [FaultIo.attempt] at isFound isFinal
  match ended : program.run start faults with
  | (.ok value, last, rest) =>
    rw [ended] at isFound isFinal
    cases isFound
    exact .inl ⟨value, rfl, faults, by rw [ended], by rw [ended]; exact isFinal⟩
  | (.refused reason, last, rest) =>
    rw [ended] at isFound
    simp only at isFound
    split at isFound
    · cases isFound
      exact .inr ⟨reason, rfl, by assumption⟩
    · cases isFound
  | (.failed reason, last, rest) =>
    rw [ended] at isFound
    simp only at isFound
    split at isFound
    · cases isFound
      exact .inr ⟨reason, rfl, by assumption⟩
    · cases isFound
  | (.crashed, last, rest) =>
    rw [ended] at isFound
    cases isFound

theorem Returns.bind_step {effect : σ → σ} {partly : Nat → σ → σ} {reason : ε}
    {next : Unit → FaultIo σ ε β}
    (returned : Returns (FaultIo.step effect partly reason >>= next) start value final) :
    Returns (next ()) (effect start) value final := by
  obtain ⟨_, middle, first, later⟩ := returned.bind
  rw [← Returns.step first]
  exact later

theorem Returns.bind_observe {reason : ε} {next : Unit → FaultIo σ ε β}
    (returned : Returns (FaultIo.observe reason >>= next) start value final) :
    Returns (next ()) start value final := Returns.bind_step returned

theorem Returns.bind_read {next : σ → FaultIo σ ε β}
    (returned : Returns (FaultIo.read >>= next) start value final) :
    Returns (next start) start value final := by
  obtain ⟨_, middle, first, later⟩ := returned.bind
  obtain ⟨rfl, rfl⟩ := first.read
  exact later

theorem Returns.bind_update {change : σ → σ} {next : Unit → FaultIo σ ε β}
    (returned : Returns (FaultIo.update change >>= next) start value final) :
    Returns (next ()) (change start) value final := by
  obtain ⟨_, middle, first, later⟩ := returned.bind
  rw [← first.update]
  exact later

theorem Returns.bind_require {reason : ε} {next : Unit → FaultIo σ ε β}
    (returned : Returns (FaultIo.require condition reason >>= next) start value final) :
    condition = true ∧ Returns (next ()) start value final := by
  obtain ⟨_, middle, first, later⟩ := returned.bind
  obtain ⟨holds, rfl⟩ := first.require
  exact ⟨holds, later⟩

theorem Returns.bind_ofExcept {computed : Except ε α} {next : α → FaultIo σ ε β}
    (returned : Returns (FaultIo.ofExcept computed >>= next) start value final) :
    ∃ found, computed = .ok found ∧ Returns (next found) start value final := by
  obtain ⟨found, middle, first, later⟩ := returned.bind
  obtain ⟨isOk, rfl⟩ := first.ofExcept
  exact ⟨found, isOk, later⟩

theorem Returns.bind_ofOption {reason : ε} {computed : Option α} {next : α → FaultIo σ ε β}
    (returned : Returns (FaultIo.ofOption reason computed >>= next) start value final) :
    ∃ found, computed = some found ∧ Returns (next found) start value final := by
  obtain ⟨found, middle, first, later⟩ := returned.bind
  obtain ⟨isSome, rfl⟩ := first.ofOption
  exact ⟨found, isSome, later⟩

end Sequences

end Returned

/-! ### Runs without faults -/

section Completes

variable {start middle final : σ}

/-- **Without faults the program returns** a value and leaves a state. -/
def Completes (program : FaultIo σ ε α) (start : σ) (value : α) (final : σ) : Prop :=
  program.run start [] = (.ok value, final, [])

/-- What a program returns without faults, if it returns. -/
def completion (program : FaultIo σ ε α) (start : σ) : Option (α × σ) :=
  match program.run start [] with
  | (.ok value, final, _) => some (value, final)
  | _ => none

/-- The state a schedule of faults stops a program in. -/
def stopping (program : FaultIo σ ε α) (start : σ) (faults : List Fault) : Option σ :=
  match program.run start faults with
  | (.crashed, final, _) => some final
  | _ => none

theorem returns_of_completion {program : FaultIo σ ε α} {value : α}
    (found : program.completion start = some (value, final)) : Returns program start value final := by
  unfold completion at found
  split at found
  · rename_i ended
    cases found
    exact ⟨[], by rw [ended], by rw [ended]⟩
  · cases found

theorem stops_of_stopping {program : FaultIo σ ε α} {faults : List Fault}
    (found : program.stopping start faults = some final) : Stops program start final := by
  unfold stopping at found
  split at found
  · rename_i ended
    cases found
    exact ⟨faults, by rw [ended], by rw [ended]⟩
  · cases found

theorem Completes.returns {program : FaultIo σ ε α} {value : α}
    (completes : Completes program start value final) : Returns program start value final :=
  ⟨[], by rw [completes], by rw [completes]⟩

/-- Without faults a program has one outcome. -/
theorem Completes.unique {program : FaultIo σ ε α} {value other : α} {last : σ}
    (completes : Completes program start value final) (also : Completes program start other last) :
    value = other ∧ final = last := by
  have same := completes.symm.trans also
  simp only [Prod.mk.injEq, Outcome.ok.injEq, and_true] at same
  exact same

theorem completes_result (value : α) : Completes (result value : FaultIo σ ε α) start value start :=
  rfl

theorem completes_bind {first : FaultIo σ ε α} {next : α → FaultIo σ ε β} {between : α} {value : β}
    (head : Completes first start between middle) (tail : Completes (next between) middle value final) :
    Completes (first >>= next) start value final := by
  show (andThen first next).run start [] = _
  simp only [andThen]
  rw [head]
  exact tail

theorem Completes.bind {first : FaultIo σ ε α} {next : α → FaultIo σ ε β} {value : β}
    (completes : Completes (first >>= next) start value final) :
    ∃ between middle, Completes first start between middle ∧
      Completes (next between) middle value final := by
  have calm := first.quiet start
  replace completes : (andThen first next).run start [] = _ := completes
  simp only [andThen] at completes
  match ended : first.run start [] with
  | (.ok between, middle, rest) =>
    rw [ended] at calm completes
    obtain ⟨-, rfl⟩ := calm
    exact ⟨between, middle, ended, completes⟩
  | (.refused reason, middle, rest) => rw [ended] at completes; cases completes
  | (.failed reason, middle, rest) => rw [ended] at completes; cases completes
  | (.crashed, middle, rest) => rw [ended] at completes; cases completes

/-- After a first part that completes, the rest decides. -/
theorem completes_bind_iff {first : FaultIo σ ε α} {next : α → FaultIo σ ε β} {between : α} {value : β}
    (head : Completes first start between middle) :
    Completes (first >>= next) start value final ↔ Completes (next between) middle value final := by
  refine ⟨fun completes => ?_, completes_bind head⟩
  obtain ⟨_, _, also, tail⟩ := completes.bind
  obtain ⟨rfl, rfl⟩ := head.unique also
  exact tail

theorem Completes.isOk {program : FaultIo σ ε α} {value : α}
    (completes : Completes program start value final) : (program.run start []).1.isOk = true := by
  rw [completes]
  rfl

theorem completes_step (effect : σ → σ) (partly : Nat → σ → σ) (reason : ε) :
    Completes (step effect partly reason) start () (effect start) := rfl

theorem completes_observe (reason : ε) :
    Completes (observe reason : FaultIo σ ε Unit) start () start := rfl

theorem completes_read : Completes (read : FaultIo σ ε σ) start start start := rfl

theorem completes_require {reason : ε} (holds : condition = true) :
    Completes (require condition reason : FaultIo σ ε Unit) start () start := by
  subst holds
  rfl

theorem completes_ofExcept {value : Except ε α} {found : α} (isOk : value = .ok found) :
    Completes (ofExcept value : FaultIo σ ε α) start found start := by
  subst isOk
  rfl

theorem completes_ofExcept_iff {value : Except ε α} {found : α} :
    Completes (ofExcept value : FaultIo σ ε α) start found final ↔
      value = .ok found ∧ final = start := by
  constructor
  · intro completes
    cases value with
    | ok computed =>
      obtain ⟨rfl, rfl⟩ := completes.unique (completes_ofExcept rfl)
      exact ⟨rfl, rfl⟩
    | error reason => cases completes
  · rintro ⟨isOk, rfl⟩
    exact completes_ofExcept isOk

theorem completes_ofOption {reason : ε} {value : Option α} {found : α} (isSome : value = some found) :
    Completes (ofOption reason value : FaultIo σ ε α) start found start := by
  subst isSome
  rfl

theorem exists_completes (program : FaultIo σ ε α) (start : σ)
    (isOk : (program.run start []).1.isOk = true) :
    ∃ value final, Completes program start value final := by
  have calm := program.quiet start
  match ended : program.run start [] with
  | (.ok value, final, rest) =>
    rw [ended] at calm
    obtain ⟨-, rfl⟩ := calm
    exact ⟨value, final, ended⟩
  | (.refused reason, final, rest) => rw [ended] at isOk; cases isOk
  | (.failed reason, final, rest) => rw [ended] at isOk; cases isOk
  | (.crashed, final, rest) => rw [ended] at isOk; cases isOk

end Completes

/-! ### Invariants of programs -/

/-- **An invariant holds wherever a program ends**; what it returns satisfies more, and it refuses only
under a condition. -/
def always (invariant : σ → Prop) (refusable : Prop) (returns : α → σ → Prop) : Post σ ε α where
  returns value final := invariant final ∧ returns value final
  refuses _ final := invariant final ∧ refusable
  fails _ final := invariant final
  stops final := invariant final

section Always

variable {invariant : σ → Prop} {refusable : Prop} {returns more : α → σ → Prop} {start : σ}
  {program : FaultIo σ ε α}

theorem always_mono (meets : Meets program start (always invariant refusable returns))
    (refusals : refusable → sometimes)
    (implies : ∀ value final, invariant final → returns value final → more value final) :
    Meets program start (always invariant sometimes more) :=
  meets.mono (fun value final held => ⟨held.1, implies value final held.1 held.2⟩)
    (fun _ _ held => ⟨held.1, refusals held.2⟩) (fun _ _ held => held) fun _ held => held

theorem always_ends (meets : Meets program start (always invariant refusable returns))
    (faults : List Fault) : invariant (program.run start faults).2.1 := by
  have held := meets faults
  match ended : (program.run start faults).1 with
  | .ok value => rw [ended] at held; exact held.1
  | .refused reason => rw [ended] at held; exact held.1
  | .failed reason => rw [ended] at held; exact held
  | .crashed => rw [ended] at held; exact held

theorem always_bind {before : β → σ → Prop} {first : FaultIo σ ε β} {next : β → FaultIo σ ε α}
    (head : Meets first start (always invariant sometimes before))
    (refusals : sometimes → refusable) (tail : ∀ value state, invariant state → before value state →
      Meets (next value) state (always invariant refusable returns)) :
    Meets (first >>= next) start (always invariant refusable returns) :=
  meets_bind (head.mono (fun value state held => tail value state held.1 held.2)
    (fun _ _ held => ⟨held.1, refusals held.2⟩) (fun _ _ held => held) fun _ held => held)

theorem always_pure {value : α} (holds : invariant start) (returned : returns value start) :
    Meets (pure value : FaultIo σ ε α) start (always invariant refusable returns) :=
  meets_pure ⟨holds, returned⟩

theorem always_step {effect : σ → σ} {partly : Nat → σ → σ} {reason : ε} {returns : Unit → σ → Prop}
    (interrupted : ∀ progress, invariant (partly progress start)) (done : invariant (effect start))
    (returned : returns () (effect start)) :
    Meets (step effect partly reason) start (always invariant refusable returns) :=
  meets_step ⟨done, returned⟩ interrupted interrupted

theorem always_read_bind {next : σ → FaultIo σ ε α}
    (tail : Meets (next start) start (always invariant refusable returns)) :
    Meets (read >>= next) start (always invariant refusable returns) := meets_bind (meets_read tail)

theorem always_step_bind {effect : σ → σ} {partly : Nat → σ → σ} {reason : ε}
    {next : Unit → FaultIo σ ε α} (interrupted : ∀ progress, invariant (partly progress start))
    (tail : Meets (next ()) (effect start) (always invariant refusable returns)) :
    Meets (step effect partly reason >>= next) start (always invariant refusable returns) :=
  meets_bind (meets_step tail interrupted interrupted)

theorem always_ofOption_bind {computed : Option β} {reason : ε} {next : β → FaultIo σ ε α}
    (holds : invariant start) (refusals : computed = none → refusable)
    (tail : ∀ value, computed = some value →
      Meets (next value) start (always invariant refusable returns)) :
    Meets (ofOption reason computed >>= next) start (always invariant refusable returns) :=
  meets_bind (meets_ofOption tail fun refused => ⟨holds, refusals refused⟩)

end Always

end FaultIo
