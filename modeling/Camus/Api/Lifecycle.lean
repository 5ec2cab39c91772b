/-
**The lifecycle of an open root.**

Clients and the reactor share a lifecycle word and a published health value. Every atomic load, store
and swap is one step, and the steps of any number of clients that call `shutdown` interleave with
those of the reactor.

* `CallerStep` — where a call of `shutdown` stands; `CallerStep.act` — its next step.
* `ReactorStep` — where the reactor stands when it poisons the root and when it finishes.
* `poison_absorbing_iff` — poison is absorbing in exactly those schedules in which no caller of
  `shutdown` acts on a lifecycle it read before the root was poisoned.
-/

import Camus.Basic
import Camus.Lib.Machine

namespace Camus

open Machine

/-! ### Shared state -/

/-- The lifecycle word. -/
inductive Lifecycle where
  | running
  | shuttingDown
  | poisoned
  | closed
deriving Repr, DecidableEq

/-- The published lifecycle. -/
inductive RootState where
  | running
  | shuttingDown
  | poisoned
  | closed
deriving Repr, DecidableEq

/-- What the reactor was doing. -/
inductive OperationKind where
  | append
  | read
  | release
  | reclaim
  | segmentRollover
  | statePublication
  | reactor
deriving Repr, DecidableEq

/-- A failure that poisoned the root. Kind and message of the error are functions of the error. -/
structure FailureInfo where
  operation : OperationKind
  error : Error
  durabilityOutcome : DurabilityOutcome
deriving DecidableEq

/-- The published health. -/
structure RootHealth where
  generation : Nat
  state : RootState
  failure : Option FailureInfo
deriving DecidableEq

/-- The state that clients and the reactor share. -/
structure Shared where
  lifecycle : Lifecycle
  shutdownStarted : Bool
  reactorFinished : Bool
  activeStorageJobs : Nat
  health : RootHealth
  shutdown : Bool
  events : Nat
deriving DecidableEq

namespace Shared

/-- The shared state of a root that was just opened. -/
def opened : Shared := ⟨.running, false, false, 0, ⟨0, .running, none⟩, false, 0⟩

/-- Wakes everyone who waits for a change. -/
def notify (shared : Shared) : Shared := { shared with events := (shared.events + 1) % (Checked.wordMax + 1) }

/-- Publishes a lifecycle. -/
def setHealthState (shared : Shared) (state : RootState) : Shared :=
  if shared.health.state = state then shared
  else { shared with
    health := { shared.health with
      generation := Checked.saturatingAdd shared.health.generation 1
      state := state } }

/-- Publishes a failure. The first failure stays. -/
def recordFailure (shared : Shared) (failure : FailureInfo) : Shared :=
  let published := shared.setHealthState .poisoned
  { published with
    health := { published.health with
      failure := some (published.health.failure.getD failure) } }

/-- The failure that is published for an error. -/
def failureInfo (shared : Shared) (operation : OperationKind) (error : Error) : FailureInfo where
  operation := operation
  error := error
  durabilityOutcome :=
    match error.durabilityOutcome with
    | .unknown => .unknown
    | .notApplicable =>
      match operation with
      | .append | .release | .reclaim | .segmentRollover | .statePublication => .unknown
      | .reactor => if shared.activeStorageJobs ≠ 0 then .unknown else .notApplicable
      | .read => .notApplicable

end Shared

/-! ### Callers of `shutdown` -/

/-- The next step of a call of `shutdown`. -/
inductive CallerStep where
  | loads
  | swaps
  | rechecks
  | stores
  | publishes
  | signals
  | waits
  | asksFinished
  | asksJobs
  | closes
  | publishesClosed
  | returned
deriving Repr, DecidableEq

/-- One step of a call of `shutdown`. A caller that has to wait tries again: it may be woken at any
time. -/
def CallerStep.act (shared : Shared) : CallerStep → Option (Shared × CallerStep)
  | .loads => some (shared, if shared.lifecycle = .closed then .returned else .swaps)
  | .swaps => some ({ shared with shutdownStarted := true },
      if shared.shutdownStarted then .waits else .rechecks)
  | .rechecks => some (shared, if shared.lifecycle = .poisoned then .signals else .stores)
  | .stores => some ({ shared with lifecycle := .shuttingDown }, .publishes)
  | .publishes => some (shared.setHealthState .shuttingDown, .signals)
  | .signals => some ({ shared with shutdown := true }.notify, .waits)
  | .waits => some (shared, if shared.lifecycle = .closed then .returned else .asksFinished)
  | .asksFinished => some (shared, if shared.reactorFinished then .asksJobs else .waits)
  | .asksJobs => some (shared, if shared.activeStorageJobs = 0 then .closes else .waits)
  | .closes => some ({ shared with lifecycle := .closed },
      if shared.lifecycle = .closed then .returned else .publishesClosed)
  | .publishesClosed => some ((shared.setHealthState .closed).notify, .returned)
  | .returned => none

/-! ### The reactor -/

/-- The next step of the reactor in `poison` (called while it works or while it terminates) and in
`finish`. -/
inductive ReactorStep where
  | working
  | poisonLoads (operation : OperationKind) (error : Error) (terminating : Bool)
  | poisonStores (operation : OperationKind) (error : Error) (terminating : Bool)
  | poisonReads (operation : OperationKind) (error : Error) (terminating : Bool)
  | poisonPublishes (failure : FailureInfo) (terminating : Bool)
  | finishLoads
  | finishStores
  | finishPublishes
  | finishEnds
  | finished
deriving DecidableEq

/-- Where the reactor goes after `poison`. -/
def afterPoison (terminating : Bool) : ReactorStep := if terminating then .finishEnds else .working

/-- One step of the reactor inside `poison` or `finish`. -/
def ReactorStep.act (shared : Shared) : ReactorStep → Option (Shared × ReactorStep)
  | .working => none
  | .poisonLoads operation error terminating => some (shared,
      if shared.lifecycle = .closed then afterPoison terminating
      else .poisonStores operation error terminating)
  | .poisonStores operation error terminating =>
    some ({ shared with lifecycle := .poisoned }, .poisonReads operation error terminating)
  | .poisonReads operation error terminating =>
    some (shared, .poisonPublishes (shared.failureInfo operation error) terminating)
  | .poisonPublishes failure terminating =>
    some ((shared.recordFailure failure).notify, afterPoison terminating)
  | .finishLoads => some (shared,
      if shared.lifecycle = .closed then .finishEnds
      else .poisonLoads .reactor
        (.runtime "root reactor terminated before completing its lifecycle") true)
  | .finishStores => some ({ shared with lifecycle := .closed }, .finishPublishes)
  | .finishPublishes => some (shared.setHealthState .closed, .finishEnds)
  | .finishEnds => some ({ shared with reactorFinished := true }.notify, .finished)
  | .finished => none

/-! ### The system -/

/-- Shared state, callers and reactor. `poisonStored` and `poisonPublished` record that `poison` has
stored the poisoned lifecycle and that it has published Poisoned. -/
structure LifecycleSystem where
  shared : Shared
  callers : List CallerStep
  reactor : ReactorStep
  poisonStored : Bool
  poisonPublished : Bool
deriving DecidableEq

/-- What may happen next. -/
inductive LifecycleAction where
  | call
  | caller (index : Nat)
  | fail (operation : OperationKind) (error : Error)
  | finish (completed : Bool)
  | reactor
  | jobStarts
  | jobEnds
deriving DecidableEq

namespace LifecycleSystem

/-- A root that was just opened. -/
def opened : LifecycleSystem := ⟨.opened, [], .working, false, false⟩

/-- The reactor is about to store the poisoned lifecycle. -/
def storesPoison (system : LifecycleSystem) : Bool :=
  match system.reactor with
  | .poisonStores _ _ _ => true
  | _ => false

/-- The reactor is about to publish Poisoned. -/
def publishesPoison (system : LifecycleSystem) : Bool :=
  match system.reactor with
  | .poisonPublishes _ _ => true
  | _ => false

/-- What an action does. -/
def act (system : LifecycleSystem) : LifecycleAction → Option LifecycleSystem
  | .call => some { system with callers := system.callers ++ [.loads] }
  | .caller index =>
    system.callers[index]?.bind fun caller =>
      (caller.act system.shared).map fun (shared, next) =>
        { system with shared := shared, callers := system.callers.set index next }
  | .fail operation error =>
    if system.reactor = .working then
      some { system with reactor := .poisonLoads operation error false }
    else none
  | .finish completed =>
    if system.reactor = .working then
      some { system with reactor := if completed then .finishStores else .finishLoads }
    else none
  | .reactor =>
    (system.reactor.act system.shared).map fun (shared, next) =>
      { system with
        shared := shared
        reactor := next
        poisonStored := system.poisonStored || system.storesPoison
        poisonPublished := system.poisonPublished || system.publishesPoison }
  | .jobStarts =>
    if system.reactor = .working then
      some { system with shared := { system.shared with
        activeStorageJobs := system.shared.activeStorageJobs + 1 } }
    else none
  | .jobEnds =>
    if system.shared.activeStorageJobs = 0 then none
    else some { system with shared := { system.shared with
      activeStorageJobs := system.shared.activeStorageJobs - 1 } }

/-! ### Poison -/

/-- Once `poison` has stored the poisoned lifecycle it stays so, and once it has published Poisoned
the published state stays so, unless the root is closed. -/
def Latched (system : LifecycleSystem) : Prop :=
  (system.poisonStored = true →
    system.shared.lifecycle = .poisoned ∨ system.shared.lifecycle = .closed) ∧
  (system.poisonPublished = true →
    system.shared.health.state = .poisoned ∨ system.shared.health.state = .closed)

/-- **Poison is absorbing** in a transition of a run: whatever was stored or published at any time
before is still visible, and a recorded failure stays. -/
def Absorbing (transition : Transition LifecycleSystem LifecycleAction) : Prop :=
  transition.after.Latched ∧
  ∀ failure, transition.before.shared.health.failure = some failure →
    transition.after.shared.health.failure = some failure

/-- A caller of `shutdown` does not act on a lifecycle from before the poison: it does not store
ShuttingDown after a poison was stored and does not publish it after one was published. -/
def Timely (transition : Transition LifecycleSystem LifecycleAction) : Prop :=
  match transition.action with
  | .caller index =>
    (transition.before.callers[index]? = some .stores → transition.before.poisonStored = false) ∧
    (transition.before.callers[index]? = some .publishes →
      transition.before.poisonPublished = false)
  | _ => True

end LifecycleSystem

theorem Shared.failure_setHealthState (shared : Shared) (state : RootState) :
    (shared.setHealthState state).health.failure = shared.health.failure := by
  unfold Shared.setHealthState
  split <;> rfl

theorem Shared.state_setHealthState (shared : Shared) (state : RootState) :
    (shared.setHealthState state).health.state = state := by
  unfold Shared.setHealthState
  split
  · assumption
  · rfl

theorem Shared.lifecycle_setHealthState (shared : Shared) (state : RootState) :
    (shared.setHealthState state).lifecycle = shared.lifecycle := by
  unfold Shared.setHealthState
  split <;> rfl

/-- What a step keeps of the shared state, and how it may change the rest. -/
structure Shared.Keeps (before after : Shared) : Prop where
  lifecycle : after.lifecycle = before.lifecycle ∨ after.lifecycle = .poisoned ∨
    after.lifecycle = .closed
  state : after.health.state = before.health.state ∨ after.health.state = .poisoned ∨
    after.health.state = .closed
  failure : ∀ failure, before.health.failure = some failure → after.health.failure = some failure

theorem Shared.Keeps.refl (shared : Shared) : shared.Keeps shared :=
  ⟨.inl rfl, .inl rfl, fun _ found => found⟩

/-- The steps of the reactor keep the lifecycle or poison or close it. -/
theorem ReactorStep.keeps {shared after : Shared} {step next : ReactorStep}
    (taken : step.act shared = some (after, next)) : shared.Keeps after := by
  cases step with
  | working => cases taken
  | finished => cases taken
  | poisonLoads operation error terminating => cases taken; exact .refl _
  | poisonReads operation error terminating => cases taken; exact .refl _
  | finishLoads => cases taken; exact .refl _
  | finishEnds => cases taken; exact ⟨.inl rfl, .inl rfl, fun _ found => found⟩
  | poisonStores operation error terminating =>
    cases taken
    exact ⟨.inr (.inl rfl), .inl rfl, fun _ found => found⟩
  | finishStores =>
    cases taken
    exact ⟨.inr (.inr rfl), .inl rfl, fun _ found => found⟩
  | finishPublishes =>
    cases taken
    exact ⟨.inl (Shared.lifecycle_setHealthState _ _),
      .inr (.inr (Shared.state_setHealthState _ _)),
      fun failure found => by rw [Shared.failure_setHealthState, found]⟩
  | poisonPublishes failure terminating =>
    cases taken
    refine ⟨.inl (Shared.lifecycle_setHealthState _ _),
      .inr (.inl (Shared.state_setHealthState _ _)), fun first found => ?_⟩
    simp [Shared.notify, Shared.recordFailure, Shared.failure_setHealthState, found]

/-- So do the steps of a caller of `shutdown`, but for the two that announce the shutdown. -/
theorem CallerStep.keeps {shared after : Shared} {step next : CallerStep}
    (notStores : step ≠ .stores) (notPublishes : step ≠ .publishes)
    (taken : step.act shared = some (after, next)) : shared.Keeps after := by
  cases step with
  | stores => exact absurd rfl notStores
  | publishes => exact absurd rfl notPublishes
  | returned => cases taken
  | loads => cases taken; exact .refl _
  | rechecks => cases taken; exact .refl _
  | waits => cases taken; exact .refl _
  | asksFinished => cases taken; exact .refl _
  | asksJobs => cases taken; exact .refl _
  | swaps => cases taken; exact ⟨.inl rfl, .inl rfl, fun _ found => found⟩
  | signals => cases taken; exact ⟨.inl rfl, .inl rfl, fun _ found => found⟩
  | closes => cases taken; exact ⟨.inr (.inr rfl), .inl rfl, fun _ found => found⟩
  | publishesClosed =>
    cases taken
    exact ⟨.inl (Shared.lifecycle_setHealthState _ _),
      .inr (.inr (Shared.state_setHealthState _ _)),
      fun failure found => (Shared.failure_setHealthState _ _).trans found⟩

namespace LifecycleSystem

variable {system next : LifecycleSystem} {action : LifecycleAction}

/-- A step that keeps the shared state is absorbing. -/
theorem absorbing_of_keeps (latched : system.Latched) (keeps : system.shared.Keeps next.shared)
    (stored : next.poisonStored = true → system.poisonStored = true ∨
      next.shared.lifecycle = .poisoned)
    (published : next.poisonPublished = true → system.poisonPublished = true ∨
      next.shared.health.state = .poisoned) : Absorbing ⟨system, action, next⟩ := by
  refine ⟨⟨fun isStored => ?_, fun isPublished => ?_⟩, keeps.failure⟩
  · rcases stored isStored with before | now
    · rcases keeps.lifecycle with same | changed
      · rw [same]
        exact latched.1 before
      · exact changed
    · exact .inl now
  · rcases published isPublished with before | now
    · rcases keeps.state with same | changed
      · rw [same]
        exact latched.2 before
      · exact changed
    · exact .inl now

/-- **One step.** A timely step from a latched state is absorbing. -/
theorem absorbing_of_timely (latched : system.Latched) (taken : system.act action = some next)
    (timely : Timely ⟨system, action, next⟩) : Absorbing ⟨system, action, next⟩ := by
  cases action with
  | call =>
    cases taken
    exact absorbing_of_keeps latched (.refl _) .inl .inl
  | fail operation error =>
    obtain ⟨-, taken⟩ := Option.ite_none_right_eq_some.mp taken
    cases taken
    exact absorbing_of_keeps latched (.refl _) .inl .inl
  | finish completed =>
    obtain ⟨-, taken⟩ := Option.ite_none_right_eq_some.mp taken
    cases taken
    exact absorbing_of_keeps latched (.refl _) .inl .inl
  | jobStarts =>
    obtain ⟨-, taken⟩ := Option.ite_none_right_eq_some.mp taken
    cases taken
    exact absorbing_of_keeps latched ⟨.inl rfl, .inl rfl, fun _ found => found⟩ .inl .inl
  | jobEnds =>
    obtain ⟨-, taken⟩ := Option.ite_none_left_eq_some.mp taken
    cases taken
    exact absorbing_of_keeps latched ⟨.inl rfl, .inl rfl, fun _ found => found⟩ .inl .inl
  | reactor =>
    obtain ⟨⟨shared, step⟩, stepped, same⟩ := Option.map_eq_some_iff.mp taken
    cases same
    refine absorbing_of_keeps latched (ReactorStep.keeps stepped) (fun stored => ?_) fun published => ?_
    · rcases Bool.or_eq_true_iff.mp stored with before | now
      · exact .inl before
      · right
        unfold storesPoison at now
        split at now
        · rename_i position
          rw [position] at stepped
          cases stepped
          rfl
        · cases now
    · rcases Bool.or_eq_true_iff.mp published with before | now
      · exact .inl before
      · right
        unfold publishesPoison at now
        split at now
        · rename_i position
          rw [position] at stepped
          cases stepped
          exact Shared.state_setHealthState _ _
        · cases now
  | caller index =>
    obtain ⟨caller, found, taken⟩ := Option.bind_eq_some_iff.mp taken
    obtain ⟨⟨shared, step⟩, stepped, same⟩ := Option.map_eq_some_iff.mp taken
    cases same
    obtain ⟨stores, publishes⟩ := timely
    by_cases isStore : caller = .stores
    · -- Nothing was poisoned yet.
      have unpoisoned := stores (by rw [found, isStore])
      subst isStore
      cases stepped
      exact ⟨⟨fun stored => absurd stored (Bool.eq_false_iff.mp unpoisoned), latched.2⟩,
        fun _ failed => failed⟩
    · by_cases isPublish : caller = .publishes
      · have unpoisoned := publishes (by rw [found, isPublish])
        subst isPublish
        cases stepped
        refine ⟨⟨fun stored => ?_, fun published => absurd published (Bool.eq_false_iff.mp unpoisoned)⟩,
          fun failure failed => ?_⟩
        · rw [Shared.lifecycle_setHealthState]
          exact latched.1 stored
        · rw [Shared.failure_setHealthState]
          exact failed
      · exact absorbing_of_keeps latched (CallerStep.keeps isStore isPublish stepped) .inl .inl

/-- A step that is absorbing is timely: the two other steps undo the poison at once. -/
theorem timely_of_absorbing (taken : system.act action = some next)
    (absorbing : Absorbing ⟨system, action, next⟩) : Timely ⟨system, action, next⟩ := by
  cases action with
  | caller index =>
    refine ⟨fun stores => ?_, fun publishes => ?_⟩
    · obtain ⟨caller, found, taken⟩ := Option.bind_eq_some_iff.mp taken
      rw [show system.callers[index]? = some .stores from stores] at found
      cases found
      cases taken
      by_contra stored
      rcases absorbing.1.1 (by simpa using stored) with poisoned | closed
      · cases poisoned
      · cases closed
    · obtain ⟨caller, found, taken⟩ := Option.bind_eq_some_iff.mp taken
      rw [show system.callers[index]? = some .publishes from publishes] at found
      cases found
      cases taken
      by_contra published
      rcases absorbing.1.2 (by simpa using published) with state | state
      · cases (Shared.state_setHealthState _ _).symm.trans state
      · cases (Shared.state_setHealthState _ _).symm.trans state
  | call => trivial
  | fail operation error => trivial
  | finish completed => trivial
  | reactor => trivial
  | jobStarts => trivial
  | jobEnds => trivial

/-- **Poison is absorbing exactly in the timely schedules.** In every interleaving of any number of
`shutdown` calls with the reactor: throughout the run a stored poison, a published one and a recorded
failure stay, if and only if no caller stores or publishes ShuttingDown after a poison. -/
theorem poison_absorbing_iff (schedule : List LifecycleAction) :
    (∀ transition ∈ transitions act opened schedule, Absorbing transition) ↔
      ∀ transition ∈ transitions act opened schedule, Timely transition := by
  constructor
  · intro absorbing transition member
    exact timely_of_absorbing (act_of_mem transition member) (absorbing transition member)
  · have unpoisoned : opened.Latched := ⟨nofun, nofun⟩
    refine forall_transitions_of (fun state action next latched taken timely => ?_) schedule unpoisoned
    have absorbing := absorbing_of_timely latched taken timely
    exact ⟨absorbing.1, absorbing⟩

/-- A client reads Running, the reactor poisons the root, and the client stores ShuttingDown. Then it
publishes ShuttingDown over Poisoned. -/
theorem poison_overwritten :
    ∃ transition ∈ transitions act opened [.call, .caller 0, .caller 0, .caller 0,
        .fail .append (.io "write epoch group" (.entry .segments) .unknown), .reactor, .reactor,
        .reactor, .reactor, .caller 0, .caller 0],
      transition.after.poisonStored = true ∧
        transition.after.shared.lifecycle = .shuttingDown ∧
        transition.before.shared.health.state = .poisoned ∧
        transition.after.shared.health.state = .shuttingDown := by
  decide

end LifecycleSystem

end Camus
