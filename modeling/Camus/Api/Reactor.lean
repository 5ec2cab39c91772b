/-
**The reactor of an open root.**

One task owns the storage and serves the commands of all clients. It is a machine: clients admit
commands, call `shutdown` and drop their handles at any time, and the reactor takes one step of its
loop after the other.

* `Phase` — where the loop stands: at its top, in the wait for a command, while it gathers a group,
  while a storage job runs.
* `Reactor.finishAppends`, `Reactor.finishReleases` and the others — what it does with the result of
  a job: who is answered what, and what goes back to the backlog.
* `Reactor.act` — one step of the machine.

A storage job runs on the modelled storage, under any schedule of faults and any readings of the
clock. A job may also be lost: the runtime drops it, and the storage with it.
-/

import Camus.Api.Jobs
import Camus.Api.Lifecycle

namespace Camus

open Codec Checked Disk FaultIo Machine Std

/-! ### Commands and replies -/

/-- The bounds the reactor and its clients work with. -/
structure Limits where
  capacity : Capacity
  maxEpochBytes : Nat
  maxReleaseRecords : Nat
  maxCommitUnits : Nat
  maxCommitBytes : Nat
  maxAppendGroupBytes : Nat
  maxBoundedReleaseGroupBytes : Nat
deriving DecidableEq

/-- The bounds of a configuration. -/
def Config.limits (config : Config) : Limits where
  capacity := config.capacity
  maxEpochBytes := config.maxEpochBytes
  maxReleaseRecords := config.maxReleaseRecords
  maxCommitUnits := config.maxCommitUnits
  maxCommitBytes := config.maxCommitBytes
  maxAppendGroupBytes :=
    min config.maxCommitBytes (config.segmentBytes - segmentHeaderLen - segmentFooterLen)
  maxBoundedReleaseGroupBytes := maxBoundedReleaseGroupBytes config

/-- What a client asks for. -/
inductive Request where
  | append (streamId : StreamId) (records : List Record) (encodedBytes : Nat)
  | read (streamId : StreamId) (limits : ReadLimits)
  | release (streamId : StreamId) (ids : List RecordId) (encodedBound : Nat)
  | reclaim
deriving DecidableEq

/-- The client sends a request only within the bounds, with its size. -/
def Request.admissible (limits : Limits) : Request → Bool
  | .append _ records encodedBytes =>
    encodedEpochBytes records = .ok encodedBytes && encodedBytes ≤ limits.maxEpochBytes
  | .read _ readLimits => readLimits.maxRecords ≠ 0
  | .release _ ids encodedBound =>
    ids ≠ [] && ids.length ≤ limits.maxReleaseRecords && encodedBound = 72 + 16 * ids.length
  | .reclaim => true

/-- A request with the channel its reply goes to. -/
structure Command where
  reply : Nat
  request : Request
deriving DecidableEq

/-- What a client is answered. -/
inductive Reply where
  | append (result : Except Error (List RecordId))
  | appendWait (records : List Record)
  | read (result : Except Error (Option (List PendingRecord)))
  | release (result : Except Error Unit)
  | reclaim (result : Except Error ReclaimReport)
deriving DecidableEq

/-- An append in a group. -/
structure AppendEntry where
  streamId : StreamId
  records : List Record
  encodedBytes : Nat
  reply : Nat
deriving DecidableEq

/-- The command an entry was. -/
def AppendEntry.command (entry : AppendEntry) : Command :=
  ⟨entry.reply, .append entry.streamId entry.records entry.encodedBytes⟩

/-- The storage's part of an entry. -/
def AppendEntry.unit (entry : AppendEntry) : AppendUnit := ⟨entry.streamId, entry.records⟩

/-- A release in a group. -/
structure ReleaseEntry where
  streamId : StreamId
  ids : List RecordId
  encodedBound : Nat
  reply : Nat
deriving DecidableEq

/-- The command an entry was. -/
def ReleaseEntry.command (entry : ReleaseEntry) : Command :=
  ⟨entry.reply, .release entry.streamId entry.ids entry.encodedBound⟩

/-- The storage's part of an entry. -/
def ReleaseEntry.unit (entry : ReleaseEntry) : ReleaseUnit := ⟨entry.streamId, entry.ids⟩

/-- A copy of an error for the other members of a group; an error that poisons is not copied. -/
def Error.copyNonpoisoning (error : Error) : Option Error :=
  if error.poisonsRoot then none else some error

/-! ### The state of the reactor -/

/-- Where the loop of the reactor stands, with the commands it has in hand. -/
inductive Phase where
  | top
  | waiting
  | selecting (running : Bool)
  | taken (command : Command)
  | gatheringAppends (entries : List AppendEntry) (groupBytes : Nat)
      (groupRecords : Highwaters)
  | appending (entries : List AppendEntry)
  | reading (streamId : StreamId) (limits : ReadLimits) (reply : Nat)
  | gatheringReleases (entries : List ReleaseEntry) (groupBytes : Nat)
  | releasing (entries : List ReleaseEntry)
  | reclaiming (reply : Nat)
  | maintaining
  | rollingOver
  | ended
  | unwound (lost : List Command)

/-- The commands in hand. -/
def Phase.inHand : Phase → List Command
  | .taken command => [command]
  | .gatheringAppends entries _ _ | .appending entries => entries.map AppendEntry.command
  | .reading streamId limits reply => [⟨reply, .read streamId limits⟩]
  | .gatheringReleases entries _ | .releasing entries => entries.map ReleaseEntry.command
  | .reclaiming reply => [⟨reply, .reclaim⟩]
  | .unwound lost => lost
  | _ => []

/-- **The reactor and its clients.** `alive` says that a client still holds a handle, and with it the
shared state. The last three fields record the history: the commands in the order of their
admission, the commands that were answered with their replies, and the groups that were handed to a
storage job with the number of commands answered before. -/
structure Reactor where
  limits : Limits
  fs : Fs
  storage : Option Storage
  channel : List Command
  backlog : List Command
  closing : Bool
  ageTimer : Bool
  phase : Phase
  alive : Bool
  shared : Shared
  callers : List CallerStep
  queueDepth : Nat
  admitted : List Command
  answered : List (Command × Reply)
  handed : List (Nat × List Command)

/-- Poisons the shared state, in one step. -/
def Shared.poison (shared : Shared) (operation : OperationKind) (error : Error) : Shared :=
  if shared.lifecycle = .closed then shared
  else
    let stored := { shared with lifecycle := .poisoned }
    (stored.recordFailure (stored.failureInfo operation error)).notify

/-- The state can be published: its statistics do not overflow. -/
def Storage.publishable (storage : Storage) : Except Error Unit := do
  let _ ← storage.maintenanceHeadroomBytes
  let _ ← Result.orError (.invalidConfig "segment count does not fit u64")
    (toWord storage.segments.size)
  return ()

/-- The milliseconds until the active segment has to be sealed, if segments age. -/
def Storage.nextAgeDelay (storage : Storage) (clock : Clock) : Except Error (Option Nat) :=
  match storage.config.maxSegmentAge with
  | none => .ok none
  | some maxAge =>
    match storage.activeSegment with
    | none => .ok (some maxAge.asMillis)
    | some active => do
      let now ← unixMillis clock
      let maxMillis ← Result.orError (.invalidConfig "segment age does not fit u64")
        (toWord maxAge.asMillis)
      let segment ← storage.segmentAt active
      return some (maxMillis - (now - segment.header.createdAtUnixMillis))

namespace Reactor

/-- The reactor of a root that was just opened. -/
def opened (config : Config) (storage : Storage) (fs : Fs) (ageTimer : Bool) : Reactor where
  limits := config.limits
  fs := fs
  storage := some storage
  channel := []
  backlog := []
  closing := false
  ageTimer := ageTimer
  phase := .top
  alive := true
  shared := .opened
  callers := []
  queueDepth := 0
  admitted := []
  answered := []
  handed := []

/-! ### Its view of the shared state -/

/-- The lifecycle, which is Closed once no client holds the shared state. -/
def lifecycle (reactor : Reactor) : Lifecycle :=
  if reactor.alive then reactor.shared.lifecycle else .closed

def markPoisoned (operation : OperationKind) (error : Error) (reactor : Reactor) : Reactor :=
  if reactor.alive then { reactor with shared := reactor.shared.poison operation error } else reactor

/-- Poisons the root for an error that asks for it. -/
def poisonFor (operation : OperationKind) (error : Error) (reactor : Reactor) : Reactor :=
  if error.poisonsRoot then reactor.markPoisoned operation error else reactor

def markCompleted (count : Nat) (reactor : Reactor) : Reactor :=
  if reactor.alive then { reactor with queueDepth := reactor.queueDepth - count } else reactor

/-- Publishes the state of the storage; of this only the possible failure matters here. -/
def publishStorage (reactor : Reactor) : Reactor :=
  match reactor.storage with
  | none => reactor
  | some storage =>
    match storage.publishable with
    | .ok _ => reactor
    | .error error => reactor.markPoisoned .statePublication error

/-- Arms the timer for the age of the active segment. -/
def observeAgeTimer (clock : Clock) (reactor : Reactor) : Reactor :=
  match reactor.storage with
  | none => { reactor with ageTimer := false }
  | some storage =>
    match storage.nextAgeDelay clock with
    | .ok delay => { reactor with ageTimer := delay.isSome }
    | .error error => { reactor.markPoisoned .segmentRollover error with ageTimer := false }

/-- Sends replies. -/
def answer (replies : List (Command × Reply)) (reactor : Reactor) : Reactor :=
  { reactor with answered := reactor.answered ++ replies }

/-- Hands the commands in hand to a storage job. -/
def hand (phase : Phase) (reactor : Reactor) : Reactor :=
  { reactor with
    phase := phase
    handed := reactor.handed ++ [(reactor.answered.length, phase.inHand)] }

/-- Puts deferred appends back to the front of the backlog, the last one first. -/
def requeueAppends (deferred : List AppendEntry) (reactor : Reactor) : Reactor :=
  { reactor with
    backlog := deferred.reverse.foldl (fun backlog entry => entry.command :: backlog)
      reactor.backlog }

end Reactor

/-! ### Results of an append job -/

/-- What the result of an append job means for the entries of its group: who is answered what, who is
put back, and how many commands are counted as completed. `failure` is an error the reactor itself
found in the result. -/
structure AppendVerdict where
  answered : List (AppendEntry × Reply)
  deferred : List AppendEntry
  completed : Nat
  failure : Option Error

/-- The replies of a group whose job failed. -/
def replyAppendError (entries : List AppendEntry) (error : Error) : List (AppendEntry × Reply) :=
  match entries with
  | [] => []
  | first :: rest =>
    (first, .append (.error error)) :: rest.zip
      ((List.range' 1 rest.length).map fun _ =>
        .append (.error (error.copyNonpoisoning.getD .poisoned)))

/-- The replies of a group whose job answered for the wrong number of units. -/
def replyWrongCount (entries : List AppendEntry) (error : Error) : List (AppendEntry × Reply) :=
  match entries with
  | [] => []
  | first :: rest =>
    (first, .append (.error error)) :: rest.map fun entry => (entry, .append (.error .poisoned))

/-- The first entry is answered and the others are put back. -/
def answerFirst (entries : List AppendEntry) (reply : AppendEntry → Reply) : AppendVerdict where
  answered := (entries.take 1).map fun entry => (entry, reply entry)
  deferred := entries.drop 1
  completed := 1
  failure := none

/-- What the reactor makes of the result of an append job. There is no verdict where the code is
unreachable. -/
def appendVerdict (capacity : Capacity) (entries : List AppendEntry) :
    Except Error AppendJob → Option AppendVerdict
  | .ok (.complete outputs selected) =>
    if selected ≠ 0 && selected ≤ entries.length && outputs.length = selected then
      some {
        answered := (entries.take selected).zip (outputs.map fun ids => .append (.ok ids))
        deferred := entries.drop selected
        completed := selected
        failure := none }
    else
      let error := .runtime "storage returned the wrong append result count"
      some ⟨replyWrongCount entries error, [], entries.length, some error⟩
  | .ok (.capacity (.wait neededBytes availableBytes)) =>
    match capacity with
    | .bounded _ .block => some (answerFirst entries fun entry => .appendWait entry.records)
    | .bounded _ .rejectNew => some (answerFirst entries fun _ =>
        .append (.error (.rejectedCapacity neededBytes availableBytes)))
    | .unbounded => none
  | .ok (.capacity (.exceeds neededBytes totalBytes)) =>
    some (answerFirst entries fun _ => .append (.error (.exceedsCapacity neededBytes totalBytes)))
  | .ok (.capacity .admitted) => none
  | .ok (.failure error selected) =>
    if selected ≠ 0 && selected ≤ entries.length then
      some ⟨replyAppendError (entries.take selected) error, entries.drop selected, selected, none⟩
    else
      let error := .runtime "storage returned an invalid append failure scope"
      some ⟨replyAppendError entries error, [], entries.length, some error⟩
  | .error error => some ⟨replyAppendError entries error, [], entries.length, none⟩

/-- The error of an append job that poisons the root before anyone is answered. -/
def appendFailure (count : Nat) : Except Error AppendJob → Option Error
  | .ok (.failure error selected) =>
    if selected ≠ 0 && selected ≤ count && error.poisonsRoot then some error else none
  | .error error => if error.poisonsRoot then some error else none
  | _ => none

/-- The replies of a release group. -/
def replyReleases (entries : List ReleaseEntry) : Except Error Unit → List (Command × Reply)
  | .ok () => entries.map fun entry => (entry.command, .release (.ok ()))
  | .error error =>
    match entries with
    | [] => []
    | first :: rest =>
      (first.command, .release (.error error)) :: (rest.map ReleaseEntry.command).zip
        ((List.range' 1 rest.length).map fun _ =>
          .release (.error (error.copyNonpoisoning.getD .poisoned)))

/-- The answer to a command that finds the root poisoned. -/
def rejectPoisoned (command : Command) : Reply :=
  match command.request with
  | .append _ _ _ => .append (.error .poisoned)
  | .read _ _ => .read (.error .poisoned)
  | .release _ _ _ => .release (.error .poisoned)
  | .reclaim => .reclaim (.error .poisoned)

namespace Reactor

/-- Poisons the root for an error, if there is one. -/
def poisonIf (operation : OperationKind) (error : Option Error) (reactor : Reactor) : Reactor :=
  match error with
  | none => reactor
  | some error => reactor.markPoisoned operation error

/-- Poisons the root for the error of a job, if it asks for it. -/
def poisonOnError {α : Type} (operation : OperationKind) (result : Except Error α)
    (reactor : Reactor) : Reactor :=
  match result with
  | .ok _ => reactor
  | .error error => reactor.poisonFor operation error

/-- Ends an append job. -/
def finishAppends (entries : List AppendEntry) (result : Except Error AppendJob) (clock : Clock)
    (reactor : Reactor) : Reactor :=
  let published := (reactor.poisonIf .append (appendFailure entries.length result)).publishStorage
  let timed := published.observeAgeTimer clock
  match appendVerdict reactor.limits.capacity entries result with
  | none => { timed with phase := .unwound (entries.map AppendEntry.command) }
  | some verdict =>
    let poisoned := timed.poisonIf .append verdict.failure
    let requeued := poisoned.requeueAppends verdict.deferred
    let replied := requeued.answer
      (verdict.answered.map fun (entry, reply) => (entry.command, reply))
    { replied.markCompleted verdict.completed with phase := .top }

/-- Ends a read job. -/
def finishRead (command : Command) (result : Except Error (Option (List PendingRecord)))
    (reactor : Reactor) : Reactor :=
  let poisoned := reactor.poisonOnError .read result
  { (poisoned.answer [(command, .read result)]).markCompleted 1 with phase := .top }

/-- Ends a release job. -/
def finishReleases (entries : List ReleaseEntry) (result : Except Error Unit) (reactor : Reactor) :
    Reactor :=
  let poisoned := reactor.poisonOnError .release result
  let replied := poisoned.publishStorage.answer (replyReleases entries result)
  { replied.markCompleted entries.length with phase := .top }

/-- Ends an explicit reclamation. -/
def finishReclaim (command : Command) (result : Except Error ReclaimReport) (clock : Clock)
    (reactor : Reactor) : Reactor :=
  let poisoned := reactor.poisonOnError .reclaim result
  let replied := (poisoned.publishStorage.answer [(command, .reclaim result)]).markCompleted 1
  { replied.observeAgeTimer clock with phase := .top }

/-- Ends a job that no command asked for. -/
def finishMaintenance {α : Type} (operation : OperationKind) (result : Except Error α)
    (clock : Clock) (reactor : Reactor) : Reactor :=
  let poisoned := reactor.poisonOnError operation result
  { poisoned.publishStorage.observeAgeTimer clock with phase := .top }

/-! ### Jobs -/

section

variable [Hasher]

/-- How a storage job ends: under a schedule of faults, or lost with the storage it ran on, whatever
it did to the files. -/
inductive JobEnd where
  | ran (faults : List Fault)
  | lost (fs : Fs)

/-- The error of a job that ended without a result. -/
def lostError : Error := .runtime "blocking runtime job terminated without a result"

/-- Runs a storage job. There is no next state if the machine stops. -/
def storageJob {α : Type} (reactor : Reactor) (job : StorageIo α) :
    JobEnd → Option (Except Error α × Reactor)
  | jobEnd =>
    match reactor.storage with
    | none => some (.error .poisoned, reactor)
    | some storage =>
      match jobEnd with
      | .lost fs => some (.error lostError, { reactor with fs := fs, storage := none })
      | .ran faults =>
        match job.run ⟨storage, reactor.fs⟩ faults with
        | (.ok value, world, _) =>
          some (.ok value, { reactor with fs := world.fs, storage := some world.storage })
        | (.refused error, world, _) | (.failed error, world, _) =>
          if reported error then
            some (.error error, { reactor with fs := world.fs, storage := some world.storage })
          else some (.error lostError, { reactor with fs := world.fs, storage := none })
        | (.crashed, _, _) => none

/-! ### Steps -/

/-- What ends the wait for a command. -/
inductive Wake where
  | command
  | shutdown
  | timer
deriving DecidableEq

/-- The next command of backlog and channel. -/
def popNext (reactor : Reactor) : Option (Command × Reactor) :=
  match reactor.backlog with
  | command :: rest => some (command, { reactor with backlog := rest })
  | [] =>
    match reactor.channel with
    | command :: rest => some (command, { reactor with channel := rest })
    | [] => none

/-- The top of the loop: maintenance when there is nothing else to do. -/
def loop (reactor : Reactor) : Reactor :=
  if reactor.lifecycle = .running && reactor.backlog = [] && reactor.channel = [] then
    match reactor.storage with
    | none => { reactor with phase := .waiting }
    | some storage =>
      match storage.hasAutomaticReclaimWork with
      | .ok true => { reactor with phase := .maintaining }
      | .ok false => { reactor with phase := .waiting }
      | .error _ => { reactor with phase := .unwound [] }
  else { reactor with phase := .waiting }

/-- The next command: of the backlog, then of a channel that is closed, which ends the loop once it
is empty. Otherwise the reactor has to wait; what for depends on the lifecycle it reads here. -/
def seek (reactor : Reactor) : Reactor :=
  match reactor.popNext with
  | some (command, rest) =>
    if reactor.backlog ≠ [] || reactor.closing then { rest with phase := .taken command }
    else { reactor with phase := .selecting (reactor.lifecycle = .running) }
  | none =>
    if reactor.closing then { reactor with phase := .ended }
    else { reactor with phase := .selecting (reactor.lifecycle = .running) }

/-- The wait ends: with a command, with the end of a channel whose clients are gone, with the request
to shut down, which also the loss of the last client makes, or with the timer. -/
def wake (running : Bool) (reactor : Reactor) : Wake → Option Reactor
  | .command =>
    match reactor.channel with
    | command :: rest => some { reactor with channel := rest, phase := .taken command }
    | [] => if reactor.alive then none else some { reactor with phase := .ended }
  | .shutdown =>
    if reactor.shared.shutdown || !reactor.alive then
      some { reactor with closing := true, ageTimer := false, phase := .top }
    else none
  | .timer => if running && reactor.ageTimer then some { reactor with phase := .rollingOver } else none

/-- What is done with a command that was taken. -/
def dispatch (command : Command) (reactor : Reactor) : Reactor :=
  if reactor.lifecycle = .poisoned then
    { (reactor.answer [(command, rejectPoisoned command)]).markCompleted 1 with phase := .top }
  else
    match command.request with
    | .append streamId records encodedBytes =>
      { reactor with
        phase := .gatheringAppends [⟨streamId, records, encodedBytes, command.reply⟩] encodedBytes
          ((∅ : Highwaters).insert streamId (saturatingWord records.length)) }
    | .read streamId limits => reactor.hand (.reading streamId limits command.reply)
    | .release streamId ids encodedBound =>
      { reactor with
        phase := .gatheringReleases [⟨streamId, ids, encodedBound, command.reply⟩] encodedBound }
    | .reclaim => reactor.hand (.reclaiming command.reply)

/-- One more append fits a group: its sequences and its bytes. -/
def appendFits (reactor : Reactor) (groupBytes : Nat) (streamId : StreamId) (encodedBytes : Nat)
    (cumulative : Option Nat) : Bool :=
  let highwater := reactor.storage.bind fun storage =>
    storage.streams[streamId]?.bind (·.highwater)
  cumulative.any (fun count => highwater.all fun value => (checkedAdd value count).isSome) &&
    (checkedAdd groupBytes encodedBytes).any fun bytes => bytes ≤ reactor.limits.maxAppendGroupBytes

/-- Gathers one more append, or starts the job. -/
def gatherAppend (entries : List AppendEntry) (groupBytes : Nat)
    (groupRecords : Highwaters) (reactor : Reactor) : Reactor :=
  if entries.length < reactor.limits.maxCommitUnits then
    match reactor.popNext with
    | none => reactor.hand (.appending entries)
    | some (next, rest) =>
      match next.request with
      | .append streamId records encodedBytes =>
        let cumulative := checkedAdd (groupRecords[streamId]?.getD 0) (saturatingWord records.length)
        if reactor.appendFits groupBytes streamId encodedBytes cumulative then
          { rest with
            phase := .gatheringAppends
              (entries ++ [⟨streamId, records, encodedBytes, next.reply⟩])
              (groupBytes + encodedBytes)
              (groupRecords.insert streamId (cumulative.getD 0)) }
        else { rest with backlog := next :: rest.backlog }.hand (.appending entries)
      | _ => { rest with backlog := next :: rest.backlog }.hand (.appending entries)
  else reactor.hand (.appending entries)

/-- The bytes of a release group. -/
def maxReleaseGroupBytes (limits : Limits) : Nat :=
  match limits.capacity with
  | .bounded _ _ => limits.maxBoundedReleaseGroupBytes
  | .unbounded => limits.maxCommitBytes

/-- Gathers one more release, or starts the job. -/
def gatherRelease (entries : List ReleaseEntry) (groupBytes : Nat) (reactor : Reactor) : Reactor :=
  if entries.length < reactor.limits.maxCommitUnits then
    match reactor.popNext with
    | none => reactor.hand (.releasing entries)
    | some (next, rest) =>
      match next.request with
      | .release streamId ids encodedBound =>
        if (checkedAdd groupBytes encodedBound).any fun bytes =>
            bytes ≤ maxReleaseGroupBytes reactor.limits then
          { rest with
            phase := .gatheringReleases (entries ++ [⟨streamId, ids, encodedBound, next.reply⟩])
              (groupBytes + encodedBound) }
        else { rest with backlog := next :: rest.backlog }.hand (.releasing entries)
      | _ => { rest with backlog := next :: rest.backlog }.hand (.releasing entries)
  else reactor.hand (.releasing entries)

/-- The capacity is bounded. -/
def bounded (limits : Limits) : Bool := limits.capacity ≠ .unbounded

/-- Runs the job of the current phase to its end. -/
def endJob (reactor : Reactor) (jobEnd : JobEnd) (clocks : JobClocks) (clock : Clock) :
    Option Reactor :=
  match reactor.phase with
  | .appending entries =>
    (reactor.storageJob (executeAppendJob (entries.map AppendEntry.unit) (bounded reactor.limits)
      clocks) jobEnd).map fun (result, after) => after.finishAppends entries result clock
  | .reading streamId limits reply =>
    (reactor.storageJob (do
      let storage ← getStorage
      onDisk (storage.read streamId limits)) jobEnd).map fun (result, after) =>
        after.finishRead ⟨reply, .read streamId limits⟩ result
  | .releasing entries =>
    (reactor.storageJob (releaseGroup (entries.map ReleaseEntry.unit)) jobEnd).map
      fun (result, after) => after.finishReleases entries result
  | .reclaiming reply =>
    (reactor.storageJob (reclaim .explicit) jobEnd).map fun (result, after) =>
      after.finishReclaim ⟨reply, .reclaim⟩ result clock
  | .maintaining =>
    (reactor.storageJob (reclaim .automatic) jobEnd).map fun (result, after) =>
      after.finishMaintenance .reclaim result clock
  | .rollingOver =>
    (reactor.storageJob (sealExpired clocks.expiry) jobEnd).map fun (result, after) =>
      after.finishMaintenance .segmentRollover result clock
  | _ => none

/-- What may happen next. -/
inductive Action where
  | admits (request : Request)
  | calls
  | caller (index : Nat)
  | dropsHandles
  | loops
  | seeks
  | wakes (wake : Wake)
  | dispatches
  | gathers
  | endsJob (jobEnd : JobEnd) (clocks : JobClocks) (clock : Clock)

/-- The loop is over. -/
def isOver (reactor : Reactor) : Bool :=
  match reactor.phase with
  | .ended => true
  | .unwound _ => true
  | _ => false

/-- A client admits a command: it is counted and sent. -/
def markAdmitted (request : Request) (reactor : Reactor) : Reactor :=
  let command : Command := ⟨reactor.admitted.length, request⟩
  { reactor with
    queueDepth := reactor.queueDepth + 1
    channel := reactor.channel ++ [command]
    admitted := reactor.admitted ++ [command] }

/-- **One step of the reactor or of a client.** -/
def act (reactor : Reactor) : Action → Option Reactor
  | .admits request =>
    if reactor.alive && !reactor.isOver && request.admissible reactor.limits then
      some (reactor.markAdmitted request)
    else none
  | .calls => if reactor.alive then some { reactor with callers := reactor.callers ++ [.loads] } else none
  | .caller index =>
    if reactor.alive then
      reactor.callers[index]?.bind fun caller =>
        (caller.act reactor.shared).map fun (shared, next) =>
          { reactor with shared := shared, callers := reactor.callers.set index next }
    else none
  | .dropsHandles => some { reactor with alive := false }
  | .loops =>
    match reactor.phase with
    | .top => some reactor.loop
    | _ => none
  | .seeks =>
    match reactor.phase with
    | .waiting => some reactor.seek
    | _ => none
  | .wakes wake =>
    match reactor.phase with
    | .selecting running => reactor.wake running wake
    | _ => none
  | .dispatches =>
    match reactor.phase with
    | .taken command => some (reactor.dispatch command)
    | _ => none
  | .gathers =>
    match reactor.phase with
    | .gatheringAppends entries groupBytes groupRecords =>
      some (reactor.gatherAppend entries groupBytes groupRecords)
    | .gatheringReleases entries groupBytes => some (reactor.gatherRelease entries groupBytes)
    | _ => none
  | .endsJob jobEnd clocks clock => reactor.endJob jobEnd clocks clock

end

end Reactor

end Camus
