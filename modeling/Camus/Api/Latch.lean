/-
**The failure latch of the reactor.**

After a storage job failed with an error that poisons the root, its storage may be half changed. The
reactor must not use it again.

* `Watched` — the reactor with a record that a job failed this way.
* `Watched.Halts` — what is to hold of a step after such a failure: no work on the storage starts, a
  command that is taken is answered, with an error, and no command is lost.
* `Watched.halts_iff` — a schedule has this property exactly if no command is taken after the failure
  while the lifecycle, as the reactor reads it, is not Poisoned.
* `Watched.executes_after_failure` — it is not once the last handle is dropped: the latch lives in the
  state the clients share, and the reactor then executes what is queued.
-/

import Camus.Api.ReactorSpec

set_option linter.unusedSectionVars false

namespace Camus

open Codec Checked Disk FaultIo Machine

/-! ### What is to hold -/

/-- The reactor is about to use its storage for a command or for maintenance, or does so. -/
def Phase.working : Phase → Bool
  | .gatheringAppends _ _ _ | .appending _ | .reading _ _ _ | .gatheringReleases _ _ | .releasing _
  | .reclaiming _ | .maintaining | .rollingOver => true
  | _ => false

/-- The reply is an error. -/
def Reply.isError : Reply → Bool
  | .append (.error _) | .read (.error _) | .release (.error _) | .reclaim (.error _) => true
  | _ => false

/-- The error of a result. -/
def errorOf {α : Type} : Except Error α → Option Error
  | .ok _ => none
  | .error error => some error

/-- The error an append job answers with. -/
def appendError : Except Error AppendJob → Option Error
  | .ok (.failure error _) => some error
  | .error error => some error
  | _ => none

/-- The error a job ended with. -/
def JobResult.error : JobResult → Option Error
  | append _ result => appendError result
  | read _ _ _ result => errorOf result
  | release _ result => errorOf result
  | reclaim _ result => errorOf result
  | maintenance _ result => errorOf result

section

variable [Hasher]

/-- The reactor, with a record that a storage job has returned an error that poisons the root. -/
structure Watched where
  reactor : Reactor
  failed : Bool

namespace Watched

/-- The action ends a job with an error that poisons the root. -/
def fails (reactor : Reactor) : Reactor.Action → Bool
  | .endsJob jobEnd clocks _ =>
    (reactor.runJob jobEnd clocks).any fun (result, _) => result.error.any Error.poisonsRoot
  | _ => false

/-- One step of the reactor or of a client. -/
def act (system : Watched) (action : Reactor.Action) : Option Watched :=
  (system.reactor.act action).map fun after => ⟨after, system.failed || fails system.reactor action⟩

end Watched

end

namespace Watched

/-- **What is to hold of a step after a failure.** -/
structure Halt (before : Reactor) (action : Reactor.Action) (after : Reactor) : Prop where
  /-- The storage, if it is still there, is not used again. -/
  unused : after.storage = none ∨ after.phase.working = false
  /-- Who is answered is answered with an error. -/
  errors : ∃ replies, after.answered = before.answered ++ replies ∧
    ∀ entry ∈ replies, entry.2.isError = true
  /-- A command that is taken while the storage is there is answered at once. -/
  rejects : ∀ command, before.phase = .taken command → action = .dispatches →
    before.storage ≠ none → ∃ reply, after.answered = before.answered ++ [(command, reply)]
  /-- A command that is not answered is in hand or queued. -/
  kept : after.admitted =
    after.answered.map Prod.fst ++ (after.phase.inHand ++ (after.backlog ++ after.channel))
  /-- Once the loop is over, all are answered. -/
  finished : after.isOver = true → after.answered.map Prod.fst = after.admitted

/-- The step halts, if it comes after a failure. -/
def Halts (transition : Transition Watched Reactor.Action) : Prop :=
  transition.before.failed = true →
    Halt transition.before.reactor transition.action transition.after.reactor

/-- After a failure, a command is taken only while a client holds a handle and the lifecycle is still
Poisoned. -/
def Guarded (transition : Transition Watched Reactor.Action) : Prop :=
  transition.before.failed = true → transition.before.reactor.storage ≠ none →
    ∀ command, transition.before.reactor.phase = .taken command →
      transition.action = .dispatches →
        transition.before.reactor.alive = true ∧
          transition.before.reactor.shared.lifecycle = .poisoned

/-- What holds in every state: the reactor serves its clients; and after a failure it does not read
Running any more, does not wait for its timer, and is not at work with its storage. -/
structure Poised (rootId : RootId) (system : Watched) : Prop where
  serves : system.reactor.Serves rootId
  lifecycle : system.failed = true → system.reactor.lifecycle ≠ .running
  timer : system.failed = true → system.reactor.phase ≠ .selecting true
  idle : system.failed = true →
    system.reactor.storage = none ∨ system.reactor.phase.working = false

end Watched

/-! ### The lifecycle never returns to Running -/

namespace Reactor

/-- The reactor never reads Running again. -/
def Leaves (before after : Reactor) : Prop :=
  before.lifecycle ≠ .running → after.lifecycle ≠ .running

variable {reactor after : Reactor} {clock : Clock} {error : Error} {entries : List AppendEntry}

theorem Leaves.trans {middle : Reactor} (first : reactor.Leaves middle)
    (second : middle.Leaves after) : reactor.Leaves after := second ∘ first

theorem leaves_of_same (same : after.lifecycle = reactor.lifecycle) : reactor.Leaves after := by
  intro left
  rwa [same]

theorem poison_lifecycle (shared : Shared) (operation : OperationKind) (error : Error) :
    (shared.poison operation error).lifecycle = .poisoned ∨
      (shared.poison operation error).lifecycle = .closed := by
  unfold Shared.poison
  split
  · exact .inr (by assumption)
  · left
    simp only [Shared.notify, Shared.recordFailure, Shared.lifecycle_setHealthState]

theorem markPoisoned_lifecycle (operation : OperationKind) (error : Error) :
    (reactor.markPoisoned operation error).lifecycle ≠ .running := by
  unfold markPoisoned
  split
  · rename_i alive
    rcases poison_lifecycle reactor.shared operation error with poisoned | closed
    · simp [lifecycle, alive, poisoned]
    · simp [lifecycle, alive, closed]
  · rename_i gone
    simp [lifecycle, gone]

theorem leaves_markPoisoned (operation : OperationKind) (error : Error) :
    reactor.Leaves (reactor.markPoisoned operation error) := fun _ => markPoisoned_lifecycle _ _

theorem leaves_poisonIf (operation : OperationKind) (error : Option Error) :
    reactor.Leaves (reactor.poisonIf operation error) := by
  cases error with
  | none => exact id
  | some error => exact leaves_markPoisoned _ _

theorem leaves_publishStorage : reactor.Leaves reactor.publishStorage := by
  unfold publishStorage
  split
  · exact id
  · split
    · exact id
    · exact leaves_markPoisoned _ _

theorem leaves_observeAgeTimer (clock : Clock) :
    reactor.Leaves (reactor.observeAgeTimer clock) := by
  unfold observeAgeTimer
  split
  · exact id
  · split
    · exact id
    · exact leaves_markPoisoned _ _

theorem lifecycle_markCompleted (count : Nat) :
    (reactor.markCompleted count).lifecycle = reactor.lifecycle := by
  unfold markCompleted
  split <;> rfl

theorem leaves_reply (replies : List (Command × Reply)) (count : Nat) :
    reactor.Leaves ((reactor.answer replies).markCompleted count) :=
  leaves_of_same (lifecycle_markCompleted count)

/-- The reactor does not read Running after the error of a job that poisons the root, nor if it did
not before. -/
theorem poisonOnError_lifecycle {α : Type} (operation : OperationKind) {result : Except Error α}
    (left : reactor.lifecycle ≠ .running ∨ (errorOf result).any Error.poisonsRoot = true) :
    (reactor.poisonOnError operation result).lifecycle ≠ .running := by
  cases result with
  | ok value => exact left.resolve_right nofun
  | error error =>
    simp only [poisonOnError, poisonFor]
    split
    · exact markPoisoned_lifecycle _ _
    · rename_i harmless
      exact left.resolve_right harmless

/-! ### The end of a job -/

/-- The state in which the results of an append job are told to the clients. -/
def timedAfter (entries : List AppendEntry) (result : Except Error AppendJob) (clock : Clock)
    (reactor : Reactor) : Reactor :=
  (reactor.poisonIf .append (appendFailure entries.length result)).publishStorage.observeAgeTimer clock

theorem leaves_timedAfter (entries : List AppendEntry) (result : Except Error AppendJob)
    (clock : Clock) : reactor.Leaves (reactor.timedAfter entries result clock) :=
  ((leaves_poisonIf _ _).trans leaves_publishStorage).trans (leaves_observeAgeTimer clock)

theorem finishAppends_lifecycle {result : Except Error AppendJob} {verdict : AppendVerdict}
    (isVerdict : appendVerdict reactor.limits.capacity entries result = some verdict) :
    (reactor.finishAppends entries result clock).lifecycle =
      ((reactor.timedAfter entries result clock).poisonIf .append verdict.failure).lifecycle := by
  simp only [finishAppends, isVerdict]
  exact lifecycle_markCompleted _

theorem leaves_finishAppends (entries : List AppendEntry) (result : Except Error AppendJob)
    (clock : Clock) : reactor.Leaves (reactor.finishAppends entries result clock) := by
  intro left
  have timed := leaves_timedAfter entries result clock left
  cases isVerdict : appendVerdict reactor.limits.capacity entries result with
  | none =>
    simp only [finishAppends, isVerdict]
    exact timed
  | some verdict =>
    rw [finishAppends_lifecycle isVerdict]
    exact leaves_poisonIf _ _ timed

theorem finishAppends_poisoned {result : Except Error AppendJob}
    (failed : appendError result = some error) (poisons : error.poisonsRoot = true) :
    (reactor.finishAppends entries result clock).lifecycle ≠ .running := by
  have early : appendFailure entries.length result = some error →
      (reactor.timedAfter entries result clock).lifecycle ≠ .running := by
    intro isFailure
    rw [timedAfter, isFailure]
    exact leaves_observeAgeTimer clock (leaves_publishStorage (markPoisoned_lifecycle _ _))
  match result, failed with
  | .error reason, failed =>
    cases failed
    rw [finishAppends_lifecycle rfl]
    exact leaves_poisonIf _ _ (early (by simp [appendFailure, poisons]))
  | .ok (.failure reason selected), failed =>
    cases failed
    by_cases inScope : selected ≠ 0 && selected ≤ entries.length
    · rw [finishAppends_lifecycle (by simp only [appendVerdict, inScope, if_true]; rfl)]
      refine leaves_poisonIf _ _ (early ?_)
      simp only [appendFailure, inScope, poisons, Bool.and_self, if_true]
    · rw [finishAppends_lifecycle (by simp only [appendVerdict, inScope]; rfl)]
      exact markPoisoned_lifecycle _ _

/-- **The lifecycle after the result of a job.** -/
theorem finishJob_lifecycle (clock : Clock) {result : JobResult}
    (left : reactor.lifecycle ≠ .running ∨ result.error.any Error.poisonsRoot = true) :
    (reactor.finishJob clock result).lifecycle ≠ .running := by
  cases result with
  | append entries result =>
    rcases left with left | failed
    · exact leaves_finishAppends entries result clock left
    · obtain ⟨error, isError, poisons⟩ := (Option.any_eq_true _ _).mp failed
      exact finishAppends_poisoned isError poisons
  | read streamId limits reply result => exact leaves_reply _ _ (poisonOnError_lifecycle .read left)
  | release entries result =>
    exact leaves_reply _ _ (leaves_publishStorage (poisonOnError_lifecycle .release left))
  | reclaim reply result =>
    exact leaves_observeAgeTimer clock
      (leaves_reply _ _ (leaves_publishStorage (poisonOnError_lifecycle .reclaim left)))
  | maintenance operation result =>
    exact leaves_observeAgeTimer clock
      (leaves_publishStorage (poisonOnError_lifecycle operation left))

section

variable [Hasher] {jobEnd : JobEnd} {clocks : JobClocks} {result : JobResult} {left : Reactor}

theorem isError_of_replies {limits : Limits} {storage : Option Storage} {replies : List Reply}
    (failed : result.error = some error) (isReplies : result.Replies limits storage replies) :
    ∀ reply ∈ replies, reply.isError = true := by
  have errors : ∀ reason count, replies = appendErrors reason count →
      ∀ reply ∈ replies, reply.isError = true := by
    rintro reason count rfl reply member
    obtain ⟨copy, rfl⟩ := mem_errorReplies member
    rfl
  cases result with
  | append entries result =>
    cases result with
    | error reason => exact errors reason _ isReplies
    | ok job =>
      cases job with
      | failure reason selected =>
        simp only [JobResult.Replies, AppendReplies] at isReplies
        split at isReplies <;> exact errors _ _ isReplies
      | _ => cases failed
  | read streamId limits reply result =>
    cases result with
    | ok _ => cases failed
    | error _ =>
      cases isReplies
      exact List.forall_mem_singleton.mpr rfl
  | release entries result =>
    cases result with
    | ok _ => cases failed
    | error _ =>
      cases isReplies
      intro reply member
      obtain ⟨copy, rfl⟩ := mem_errorReplies member
      rfl
  | reclaim reply result =>
    cases result with
    | ok _ => cases failed
    | error _ =>
      cases isReplies
      exact List.forall_mem_singleton.mpr rfl
  | maintenance operation result =>
    cases isReplies
    exact fun reply member => absurd member List.not_mem_nil

/-- A job changes the files and the storage; without a storage it is refused. -/
theorem runAs_eq_some {α : Type} {kind : Except Error α → JobResult} {job : StorageIo α}
    (ran : reactor.runAs kind job jobEnd = some (result, left)) :
    (∃ fs storage, left = { reactor with fs := fs, storage := storage }) ∧
      (reactor.storage = none → result = kind (.error .poisoned)) := by
  obtain ⟨⟨value, _⟩, ends, same⟩ := Option.map_eq_some_iff.mp ran
  cases same
  obtain ⟨fs, storage, isLeft, -⟩ := storageJob_eq_some ends
  refine ⟨⟨fs, storage, isLeft⟩, fun gone => ?_⟩
  rw [Reactor.storageJob, gone] at ends
  cases ends
  rfl

theorem runJob_eq_some (ran : reactor.runJob jobEnd clocks = some (result, left)) :
    reactor.phase.working = true ∧
      (∃ fs storage, left = { reactor with fs := fs, storage := storage }) ∧
      (reactor.storage = none → result.error = some .poisoned) := by
  unfold Reactor.runJob at ran
  split at ran
  all_goals try cases ran
  all_goals
    rename_i isPhase
    obtain ⟨isLeft, refused⟩ := runAs_eq_some ran
    refine ⟨by rw [isPhase]; rfl, isLeft, fun gone => ?_⟩
    rw [refused gone]
    rfl

/-- **What the end of a job does here.** The reactor is at the top of its loop; it does not read
Running, if it did not before or the job failed; and without a storage all replies are errors. -/
structure EndsJob (reactor after : Reactor) (failed : Bool) : Prop where
  working : reactor.phase.working = true
  phase : after.phase = .top
  lifecycle : reactor.lifecycle ≠ .running ∨ failed = true → after.lifecycle ≠ .running
  answers : reactor.storage = none → ∃ replies, after.answered = reactor.answered ++ replies ∧
    ∀ entry ∈ replies, entry.2.isError = true

theorem EndsJob.timer {failed : Bool} (ends : reactor.EndsJob after failed) :
    after.phase ≠ .selecting true := by
  rw [ends.phase]
  intro same
  cases same

theorem EndsJob.idle {failed : Bool} (ends : reactor.EndsJob after failed) :
    after.storage = none ∨ after.phase.working = false := by
  rw [ends.phase]
  exact .inr rfl

theorem Serves.endsJob {rootId : RootId} (serves : reactor.Serves rootId)
    (ended : reactor.endJob jobEnd clocks clock = some after) :
    reactor.EndsJob after (Watched.fails reactor (.endsJob jobEnd clocks clock)) := by
  obtain ⟨-, result, left, replies, deferred, ran, ⟨-, shared, ageTimer, isAfter⟩, isReplies⟩ :=
    serves.endJob ended
  obtain ⟨working, ⟨fs, storage, isLeft⟩, refused⟩ := runJob_eq_some ran
  refine ⟨working, by rw [isAfter], fun notRunning => ?_, fun gone => ⟨replies, ?_, fun entry member => ?_⟩⟩
  · simp only [endJob_eq, ran, Option.map_some, Option.some.injEq] at ended
    simp only [Watched.fails, ran, Option.any_some] at notRunning
    rw [← ended]
    refine finishJob_lifecycle clock (notRunning.imp_left fun left => ?_)
    rw [isLeft]
    exact left
  · rw [isAfter, isLeft]
  · exact isError_of_replies (refused gone) isReplies _ (List.mem_map_of_mem member)

end

/-! ### The other steps -/

/-- What a step of the loop does after a failure. -/
structure Rests (reactor after : Reactor) : Prop where
  lifecycle : after.lifecycle ≠ .running
  timer : after.phase ≠ .selecting true
  idle : after.storage = none ∨ after.phase.working = false
  answers : ∃ replies, after.answered = reactor.answered ++ replies ∧
    ∀ entry ∈ replies, entry.2.isError = true

theorem CallerStep.leaves {shared next : Shared} {step following : CallerStep}
    (taken : step.act shared = some (next, following)) (left : shared.lifecycle ≠ .running) :
    next.lifecycle ≠ .running := by
  cases step <;> cases taken
  all_goals first
    | exact left
    | (simp only [Shared.notify, Shared.lifecycle_setHealthState]; exact left)
    | (intro same; cases same)

/-- A step that leaves the commands and the storage alone. -/
theorem Rests.of_same (left : after.lifecycle ≠ .running) (timer : after.phase ≠ .selecting true)
    (idle : after.storage = none ∨ after.phase.working = false)
    (same : after.answered = reactor.answered) : reactor.Rests after :=
  ⟨left, timer, idle, [], by rw [same, List.append_nil], nofun⟩

theorem rests_loop (left : reactor.lifecycle ≠ .running) : reactor.Rests reactor.loop := by
  have waits : reactor.loop = { reactor with phase := .waiting } := by
    unfold Reactor.loop
    rw [if_neg (by simp [left])]
  rw [waits]
  exact .of_same left (by rintro ⟨⟩) (.inr rfl) rfl

theorem rests_seek (left : reactor.lifecycle ≠ .running) : reactor.Rests reactor.seek := by
  unfold Reactor.seek
  split
  · rename_i command rest popped
    obtain ⟨backlog, channel, rfl, -⟩ := popNext_eq_some popped
    split
    · exact .of_same left (by rintro ⟨⟩) (.inr rfl) rfl
    · exact .of_same left (by simp [left]) (.inr rfl) rfl
  · split
    · exact .of_same left (by rintro ⟨⟩) (.inr rfl) rfl
    · exact .of_same left (by simp [left]) (.inr rfl) rfl

theorem rests_wake {running : Bool} {wake : Wake} (left : reactor.lifecycle ≠ .running)
    (blocked : running ≠ true) (woken : reactor.wake running wake = some after) :
    reactor.Rests after := by
  cases wake with
  | command =>
    simp only [Reactor.wake] at woken
    split at woken
    · cases woken
      exact .of_same left (by rintro ⟨⟩) (.inr rfl) rfl
    · split at woken <;> cases woken
      exact .of_same left (by rintro ⟨⟩) (.inr rfl) rfl
  | shutdown =>
    obtain ⟨-, woken⟩ := Option.ite_none_right_eq_some.mp woken
    cases woken
    exact .of_same left (by rintro ⟨⟩) (.inr rfl) rfl
  | timer =>
    obtain ⟨fires, -⟩ := Option.ite_none_right_eq_some.mp woken
    simp only [Bool.and_eq_true] at fires
    exact absurd fires.1 blocked

theorem rejectPoisoned_isError (command : Command) : (rejectPoisoned command).isError = true := by
  unfold rejectPoisoned
  split <;> rfl

theorem dispatch_poisoned (poisoned : reactor.lifecycle = .poisoned) (command : Command) :
    (reactor.dispatch command).answered = reactor.answered ++ [(command, rejectPoisoned command)] := by
  rw [Reactor.dispatch, if_pos poisoned]
  unfold Reactor.markCompleted
  split <;> rfl

theorem rests_dispatch (left : reactor.lifecycle ≠ .running) {command : Command}
    (guarded : reactor.storage ≠ none → reactor.lifecycle = .poisoned) :
    reactor.Rests (reactor.dispatch command) := by
  by_cases poisoned : reactor.lifecycle = .poisoned
  · have answers := dispatch_poisoned poisoned command
    rw [Reactor.dispatch, if_pos poisoned] at answers ⊢
    exact ⟨leaves_reply _ _ left, nofun, .inr rfl, _, answers,
      List.forall_mem_singleton.mpr (rejectPoisoned_isError command)⟩
  · have gone : reactor.storage = none := by
      by_contra present
      exact poisoned (guarded present)
    rw [Reactor.dispatch, if_neg poisoned]
    split <;> exact .of_same left nofun (.inl gone) rfl

theorem rests_gatherAppend (left : reactor.lifecycle ≠ .running) (gone : reactor.storage = none)
    (entries : List AppendEntry) (groupBytes : Nat)
    (groupRecords : Highwaters) :
    reactor.Rests (reactor.gatherAppend entries groupBytes groupRecords) := by
  have starts : reactor.Rests (reactor.hand (.appending entries)) :=
    .of_same left nofun (.inl gone) rfl
  unfold Reactor.gatherAppend
  split
  · split
    · exact starts
    · rename_i next rest popped
      obtain ⟨backlog, channel, rfl, -⟩ := popNext_eq_some popped
      split
      · simp only
        split <;> exact .of_same left nofun (.inl gone) rfl
      · exact .of_same left nofun (.inl gone) rfl
  · exact starts

theorem rests_gatherRelease (left : reactor.lifecycle ≠ .running) (gone : reactor.storage = none)
    (entries : List ReleaseEntry) (groupBytes : Nat) :
    reactor.Rests (reactor.gatherRelease entries groupBytes) := by
  have starts : reactor.Rests (reactor.hand (.releasing entries)) :=
    .of_same left nofun (.inl gone) rfl
  unfold Reactor.gatherRelease
  split
  · split
    · exact starts
    · rename_i next rest popped
      obtain ⟨backlog, channel, rfl, -⟩ := popNext_eq_some popped
      split
      · split <;> exact .of_same left nofun (.inl gone) rfl
      · exact .of_same left nofun (.inl gone) rfl
  · exact starts

end Reactor

/-! ### Schedules -/

namespace Watched

section

variable [Hasher] {rootId : RootId} {system after : Watched} {action : Reactor.Action}

/-- After a failure, a guarded step lets the reactor rest. -/
theorem rests_of_guarded (poised : system.Poised rootId) (failed : system.failed = true)
    (guarded : Guarded ⟨system, action, after⟩)
    (acts : system.reactor.act action = some after.reactor) :
    system.reactor.Rests after.reactor := by
  have left := poised.lifecycle failed
  have timer := poised.timer failed
  have idle := poised.idle failed
  generalize isAfter : after.reactor = next at acts
  cases action with
  | admits request =>
    obtain ⟨-, acts⟩ := Option.ite_none_right_eq_some.mp acts
    cases acts
    exact .of_same left timer idle rfl
  | calls =>
    obtain ⟨-, acts⟩ := Option.ite_none_right_eq_some.mp acts
    cases acts
    exact .of_same left timer idle rfl
  | caller index =>
    obtain ⟨alive, acts⟩ := Option.ite_none_right_eq_some.mp acts
    obtain ⟨caller, -, acts⟩ := Option.bind_eq_some_iff.mp acts
    obtain ⟨⟨shared, following⟩, taken, rfl⟩ := Option.map_eq_some_iff.mp acts
    refine .of_same ?_ timer idle rfl
    rw [Reactor.lifecycle, if_pos alive] at left ⊢
    exact Reactor.CallerStep.leaves taken left
  | dropsHandles =>
    cases acts
    exact .of_same (by simp [Reactor.lifecycle]) timer idle rfl
  | loops =>
    simp only [Reactor.act] at acts
    split at acts <;> cases acts
    exact Reactor.rests_loop left
  | seeks =>
    simp only [Reactor.act] at acts
    split at acts <;> cases acts
    exact Reactor.rests_seek left
  | wakes wake =>
    simp only [Reactor.act] at acts
    split at acts
    · rename_i running selecting
      refine Reactor.rests_wake left (fun isRunning => timer ?_) acts
      rw [selecting, isRunning]
    · cases acts
  | dispatches =>
    simp only [Reactor.act] at acts
    split at acts <;> cases acts
    rename_i command taken
    refine Reactor.rests_dispatch left fun present => ?_
    obtain ⟨alive, poisoned⟩ := guarded failed present command taken rfl
    rw [Reactor.lifecycle, if_pos alive, poisoned]
  | gathers =>
    simp only [Reactor.act] at acts
    split at acts <;> cases acts
    · rename_i gathering
      have gone := idle.resolve_right (by rw [gathering]; exact Bool.false_ne_true.symm)
      exact Reactor.rests_gatherAppend left gone _ _ _
    · rename_i gathering
      have gone := idle.resolve_right (by rw [gathering]; exact Bool.false_ne_true.symm)
      exact Reactor.rests_gatherRelease left gone _ _
  | endsJob jobEnd clocks clock =>
    have ends := poised.serves.endsJob acts
    have gone := idle.resolve_right (by rw [ends.working]; exact Bool.false_ne_true.symm)
    exact ⟨ends.lifecycle (.inl left), ends.timer, ends.idle, ends.answers gone⟩

/-- Every guarded step keeps the reactor poised, and halts after a failure. -/
theorem poised_step (poised : system.Poised rootId) (acts : system.act action = some after)
    (guarded : Guarded ⟨system, action, after⟩) :
    after.Poised rootId ∧ Halts ⟨system, action, after⟩ := by
  obtain ⟨next, takes, rfl⟩ := Option.map_eq_some_iff.mp acts
  have serves := Reactor.act_serves poised.serves takes
  cases failed : system.failed with
  | true =>
    have rests := rests_of_guarded poised failed guarded takes
    refine ⟨⟨serves, fun _ => rests.lifecycle, fun _ => rests.timer, fun _ => rests.idle⟩,
      fun _ => ⟨rests.idle, rests.answers, fun command taken isDispatch present => ?_, serves.fifo,
        serves.isOver⟩⟩
    obtain ⟨alive, poisoned⟩ := guarded failed present command taken isDispatch
    obtain rfl : action = .dispatches := isDispatch
    have taken : system.reactor.phase = .taken command := taken
    simp only [Reactor.act, taken] at takes
    cases takes
    have reads : system.reactor.lifecycle = .poisoned := by
      rw [Reactor.lifecycle, if_pos alive, poisoned]
    exact ⟨_, Reactor.dispatch_poisoned reads command⟩
  | false =>
    have never : ∀ {property : Prop}, false = true → property :=
      fun isFailed => absurd isFailed Bool.false_ne_true
    refine ⟨?_, fun isFailed => never (failed.symm.trans isFailed)⟩
    -- the step may be the one that fails
    cases action with
    | endsJob jobEnd clocks clock =>
      have ends := poised.serves.endsJob takes
      exact ⟨serves, fun isFailed => ends.lifecycle (.inr isFailed), fun _ => ends.timer,
        fun _ => ends.idle⟩
    | _ => exact ⟨serves, never, never, never⟩

/-- A command that is taken after a failure while the lifecycle is not Poisoned is executed. -/
theorem guarded_of_halts (acts : system.act action = some after)
    (halts : Halts ⟨system, action, after⟩) : Guarded ⟨system, action, after⟩ := by
  intro failed present command taken isDispatch
  obtain ⟨next, takes, rfl⟩ := Option.map_eq_some_iff.mp acts
  obtain rfl : action = .dispatches := isDispatch
  have isTaken : system.reactor.phase = .taken command := taken
  simp only [Reactor.act, isTaken] at takes
  cases takes
  by_contra notPoisoned
  have reads : system.reactor.lifecycle ≠ .poisoned := by
    intro poisoned
    unfold Reactor.lifecycle at poisoned
    split at poisoned
    · rename_i alive
      exact notPoisoned ⟨alive, poisoned⟩
    · cases poisoned
  rcases (halts failed).unused with gone | resting
  · refine present ?_
    simp only [Reactor.dispatch, reads, if_false] at gone
    split at gone <;> exact gone
  · simp only [Reactor.dispatch, reads, if_false] at resting
    split at resting <;> cases resting

/-- **The failure latch of the reactor.** From an opened root and for every schedule: after a storage
job returned an error that poisons the root, no further work on that storage starts, a command that is
taken is answered with an error and not executed, and all commands have been answered when the loop is
over, exactly if every command that is taken after the failure is taken while a client holds a handle
and the lifecycle is still Poisoned. -/
theorem halts_iff {config : Config} (valid : config.validate = .ok ()) (storage : Storage) (fs : Fs)
    (ageTimer : Bool) (schedule : List Reactor.Action) :
    (∀ transition ∈ transitions act ⟨.opened config storage fs ageTimer, false⟩ schedule,
        Halts transition) ↔
      ∀ transition ∈ transitions act ⟨.opened config storage fs ageTimer, false⟩ schedule,
        Guarded transition := by
  constructor
  · intro halts transition member
    exact guarded_of_halts (act_of_mem transition member) (halts transition member)
  · intro guarded
    have start : Poised storage.rootId ⟨.opened config storage fs ageTimer, false⟩ :=
      ⟨Reactor.opened_serves valid storage fs ageTimer, nofun, nofun, nofun⟩
    refine forall_transitions_of ?_ schedule start guarded
    intro before action next poised acts isGuarded
    exact poised_step poised acts isGuarded

end

/-! ### A job that fails

Two appends to a fresh root. The job of the first fails when the file of its segment is created. -/

namespace LatchSample

def config : Config := { Config.sample with maxCommitUnits := 1 }

/-- What comes after the failure differs. -/
def schedule (rest : List Reactor.Action) : List Reactor.Action :=
  let append := .admits (.append 1 [⟨[], []⟩] 128)
  [append, append, .loops, .seeks, .wakes .command, .dispatches, .gathers,
    .endsJob (.ran [.fail 0]) .sample (.millis 5)] ++ rest

def steps (opened : World) (rest : List Reactor.Action) : List (Transition Watched Reactor.Action) :=
  transitions (@act Hasher.fnv) ⟨.opened config opened.storage opened.fs false, false⟩ (schedule rest)

def guards (transition : Transition Watched Reactor.Action) : Bool :=
  !transition.before.failed || match transition.before.reactor.phase with
    | .taken _ => transition.before.reactor.alive &&
        transition.before.reactor.shared.lifecycle = .poisoned
    | _ => true

/-- After a failure, work on the storage starts. -/
def lapses (transition : Transition Watched Reactor.Action) : Bool :=
  transition.before.failed && transition.after.reactor.storage.isSome &&
    transition.after.reactor.phase.working

end LatchSample

section

open LatchSample

/-- The second append is refused, and then the loop ends. -/
theorem halts_iff_sample : ∃ opened : World,
    let steps := LatchSample.steps opened [.loops, .seeks, .wakes .command, .dispatches,
      .dropsHandles, .loops, .seeks, .wakes .command]
    (∀ transition ∈ steps, Halts transition) ∧ ∃ transition ∈ steps,
      transition.before.failed = true ∧ transition.after.reactor.answered.length = 2 ∧
        transition.after.reactor.isOver = true := by
  have evaluated : (Sample.opens config .fresh).any (fun opened =>
      let steps := LatchSample.steps opened [.loops, .seeks, .wakes .command, .dispatches,
        .dropsHandles, .loops, .seeks, .wakes .command]
      steps.all guards && steps.any fun transition => transition.before.failed &&
        transition.after.reactor.answered.length = 2 && transition.after.reactor.isOver) = true := by
    decide +kernel
  obtain ⟨opened, -, checked⟩ := exists_of_any evaluated
  simp only [Bool.and_eq_true, decide_eq_true_eq, List.any_eq_true, List.all_eq_true] at checked
  obtain ⟨guarded, transition, member, ⟨failed, both⟩, ended⟩ := checked
  refine ⟨opened, (@halts_iff Hasher.fnv config (by decide) opened.storage opened.fs false _).mpr ?_,
    transition, member, failed, both, ended⟩
  rintro transition member isFailed - command taken -
  have isGuarded := guarded transition member
  simpa [guards, isFailed, taken] using isGuarded

/-- **The latch is lost with the last handle**: then the second append is executed. -/
theorem executes_after_failure : ∃ opened : World,
    Returns (@Storage.open Hasher.fnv config .sample .sorted) .fresh opened.storage opened.fs ∧
      ∃ transition ∈ transitions (@act Hasher.fnv)
        ⟨.opened config opened.storage opened.fs false, false⟩
        (schedule [.dropsHandles, .loops, .seeks, .wakes .command, .dispatches]),
        ¬ Halts transition := by
  have evaluated : (Sample.opens config .fresh).any (fun opened =>
      (steps opened [.dropsHandles, .loops, .seeks, .wakes .command, .dispatches]).any lapses) =
        true := by decide +kernel
  obtain ⟨opened, isOpened, checked⟩ := exists_of_any evaluated
  obtain ⟨transition, member, isLapse⟩ := List.any_eq_true.mp checked
  refine ⟨opened, Sample.returns_of_opens isOpened, transition, member, fun halts => ?_⟩
  simp only [lapses, Bool.and_eq_true] at isLapse
  obtain ⟨⟨failed, present⟩, working⟩ := isLapse
  rcases (halts failed).unused with gone | resting
  · rw [gone] at present
    cases present
  · rw [working] at resting
    cases resting

end

end Watched

end Camus
