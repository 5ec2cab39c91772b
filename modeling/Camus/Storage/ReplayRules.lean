/-
**What recovery demands of the frames of the log.**

Every frame above the fence of the checkpoint is a transition of the root. The format says when it is
valid at its place in the log; the checks of an opening are spread over the replay of the frames, the
list of segments and the rebuilt indexes.

* `framesOf`, `Fs.controlFrames` — the frames of the log of a root, and those above the fence;
  `Fs.controlState` — what they make of the checkpoint; `read_openControl` — an opening finds it.
* `ControlAt` — the control state after some frames in terms of the frames.
* `ValidTransitions` — every frame is valid at its place, and the segments are explained.
* `Unchecked` — the part of it that no check of an opening sees.
* `transitions_valid_iff` — of an opening that succeeds, everything else is valid.
-/

import Camus.Storage.AccountingOpen
import Camus.Storage.OpenFrame

set_option linter.unusedSectionVars false

namespace Camus

open Codec Checked Disk FaultIo Result Std

variable {bytes : Bytes} {listing : Listing} {scan : LogScan} {offset segmentId sequence : Nat}
  {entropy : RootId} {segments : SegmentMap} {found : Unit}

/-! ### The frames of a log -/

section

variable [Hasher]

/-- The complete frames of a log, from an offset on. -/
def framesOf (bytes : Bytes) : Nat → Nat → List ManifestBody
  | 0, _ => []
  | fuel + 1, offset =>
    if bytes.length ≤ offset then []
    else if bytes.length - offset < manifestFrameHeaderLen then []
    else
      match ManifestFrameHeader.decode (slice bytes offset manifestFrameHeaderLen) with
      | .error _ => []
      | .ok header =>
        if bytes.length < offset + (manifestFrameHeaderLen + header.bodyLen) then []
        else
          match ManifestFrame.decode header
              (slice bytes (offset + manifestFrameHeaderLen) header.bodyLen) with
          | .error _ => []
          | .ok frame =>
            frame.body :: framesOf bytes fuel (offset + (manifestFrameHeaderLen + header.bodyLen))

/-- The checkpoint of a root and the frames of its log above the fence. -/
def Fs.controlFrames (fs : Fs) : Option (Checkpoint × List ManifestBody) := do
  let file ← rootDirectory.lookup .checkpoint fs
  let checkpoint ← (Checkpoint.decode (fs.content file)).toOption
  let log ← rootDirectory.lookup .manifestLog fs
  let header ← (ManifestLogHeader.decode (slice (fs.content log) 0 manifestLogHeaderLen)).toOption
  return (checkpoint, freshFrames checkpoint.lastAppliedSeq header.baseSeq
    (framesOf (fs.content log) (fs.content log).length manifestLogHeaderLen))

/-- **The control state that the files of a root have**, with the identity of the root. -/
def Fs.controlState (fs : Fs) : Option (RootId × Control) := do
  let (checkpoint, frames) ← fs.controlFrames
  let control ← applyBodies checkpoint.control frames
  return (checkpoint.rootId, control)

theorem framesOf_done (done : bytes.length ≤ offset) (fuel : Nat) :
    framesOf bytes fuel offset = [] := by
  cases fuel with
  | zero => rfl
  | succ fuel => rw [framesOf, if_pos done]

/-- An accepted log is walked over its complete frames. -/
theorem walkBodies_framesOf {lastAppliedSeq fuel seq : Nat} {walk : LogWalk}
    (scanned : scanFrames bytes lastAppliedSeq fuel offset seq walk = .ok scan) :
    walkBodies lastAppliedSeq seq walk (framesOf bytes fuel offset) = some scan.walk := by
  induction fuel generalizing offset seq walk with
  | zero =>
    cases scanned
    rfl
  | succ fuel ih =>
    unfold scanFrames at scanned
    unfold framesOf
    split at scanned
    · rename_i done
      cases scanned
      rw [if_pos done]
      rfl
    · rename_i more
      rw [if_neg more]
      split at scanned
      · rename_i short
        cases scanned
        rw [if_pos short]
        rfl
      · rename_i long
        rw [if_neg long]
        simp only [malformed, bind_eq_ok, mapError_eq_ok, orError_eq_ok,
          checkedAdd_eq_some, ensure_eq_ok, decide_eq_true_eq] at scanned
        obtain ⟨header, isHeader, _, rfl, _, ⟨rfl, short⟩, _, ⟨rfl, -⟩, scanned⟩ := scanned
        simp only [isHeader]
        split at scanned
        · rename_i torn
          cases scanned
          rw [if_pos torn]
          rfl
        · rename_i complete
          rw [if_neg complete]
          simp only [bind_eq_ok, mapError_eq_ok] at scanned
          obtain ⟨frame, isFrame, next, taken, nextSeq, isNext, scanned⟩ := scanned
          obtain ⟨-, rebuilt, -, -⟩ := frameBytes_of_decode isHeader isFrame (by omega) short
          rw [rebuilt] at taken
          simp only [isFrame]
          rw [walkBodies_of_takeFrame taken]
          unfold nextPhysicalSeq at isNext
          split at isNext
          · obtain ⟨rfl, -⟩ := checkedAdd_eq_some.mp (orError_eq_ok.mp isNext)
            exact ih scanned
          · rename_i done
            rw [framesOf_done (by omega)]
            rw [scanFrames_done (by omega)] at scanned
            cases scanned
            rfl

/-- Recovery applies the frames above the fence to the control state of the checkpoint. -/
theorem Accepts.applied {rootId : RootId} {fs : Fs} {file log : Nat} {checkpoint : Checkpoint}
    {header : ManifestLogHeader} (accepts : Accepts rootId fs file log checkpoint header scan) :
    ∃ frames, fs.controlFrames = some (checkpoint, frames) ∧
      applyBodies checkpoint.control frames = some scan.walk.control := by
  have headed : ManifestLogHeader.decode (slice (fs.content log) 0 manifestLogHeaderLen) =
      .ok header := by
    have isHeader := accepts.isHeader
    simp only [scanLogHeader, malformed, bind_eq_ok, mapError_eq_ok,
      ensure_eq_ok, pure_eq_ok] at isHeader
    obtain ⟨_, headed, _, -, _, -, _, -, rfl⟩ := isHeader
    exact headed
  have walked := walkBodies_fence (framesOf (fs.content log) (fs.content log).length
    manifestLogHeaderLen) ⟨checkpoint.lastAppliedSeq, 0, checkpoint.control⟩ rfl
      accepts.logWords.2.2.2
  rw [walkBodies_framesOf accepts.scanned, Option.map_some] at walked
  obtain ⟨control, applied, same⟩ := Option.map_eq_some_iff.mp walked.symm
  refine ⟨_, ?_, applied.trans (congrArg some (Prod.mk.inj same).2)⟩
  simp only [Fs.controlFrames, accepts.checkpointFound, accepts.logFound, accepts.decoded, headed,
    Except.toOption, Option.bind_eq_bind, Option.bind_some, Option.pure_def]

/-! ### The control files up to their recovery -/

/-- Two states have the same control files. -/
structure Fs.SameControl (fs next : Fs) : Prop where
  checkpoint : rootDirectory.lookup .checkpoint next = rootDirectory.lookup .checkpoint fs
  log : rootDirectory.lookup .manifestLog next = rootDirectory.lookup .manifestLog fs
  content : ∀ inode, next.content inode = fs.content inode

section ControlFiles

variable {fs next later : Fs}

theorem Fs.SameControl.refl (fs : Fs) : fs.SameControl fs := ⟨rfl, rfl, fun _ => rfl⟩

theorem Fs.SameControl.trans (first : fs.SameControl next) (second : next.SameControl later) :
    fs.SameControl later :=
  ⟨second.checkpoint.trans first.checkpoint, second.log.trans first.log,
    fun inode => (second.content inode).trans (first.content inode)⟩

theorem Fs.SameControl.controlFrames (same : fs.SameControl next) :
    next.controlFrames = fs.controlFrames := by
  simp only [Fs.controlFrames, same.checkpoint, same.log, same.content]

theorem Fs.SameControl.holds (same : fs.SameControl next)
    (held : rootDirectory.holds .checkpoint fs = true)
    (logged : rootDirectory.holds .manifestLog fs = true) :
    rootDirectory.holds .checkpoint next = true ∧ rootDirectory.holds .manifestLog next = true := by
  have checkpoint : next.root.entries[RootName.checkpoint]? = fs.root.entries[RootName.checkpoint]? :=
    same.checkpoint
  have log : next.root.entries[RootName.manifestLog]? = fs.root.entries[RootName.manifestLog]? :=
    same.log
  have held : fs.root.entries.contains _ = true := held
  have logged : fs.root.entries.contains _ = true := logged
  show next.root.entries.contains _ = true ∧ next.root.entries.contains _ = true
  rw [ExtTreeMap.contains_eq_isSome_getElem?] at held logged ⊢
  rw [ExtTreeMap.contains_eq_isSome_getElem?, checkpoint, log]
  exact ⟨held, logged⟩

/-- A root whose control files can be read has them. -/
theorem holds_of_controlFrames {read : Checkpoint × List ManifestBody}
    (isRead : fs.controlFrames = some read) : rootDirectory.holds .checkpoint fs = true ∧
      rootDirectory.holds .manifestLog fs = true := by
  simp only [Fs.controlFrames, Option.bind_eq_bind, Option.bind_eq_some_iff] at isRead
  obtain ⟨file, isFile, _, -, log, isLog, -⟩ := isRead
  have first : fs.root.entries[RootName.checkpoint]? = some file := isFile
  have second : fs.root.entries[RootName.manifestLog]? = some log := isLog
  show fs.root.entries.contains _ = true ∧ fs.root.entries.contains _ = true
  rw [ExtTreeMap.contains_eq_isSome_getElem?, ExtTreeMap.contains_eq_isSome_getElem?, first,
    second]
  exact ⟨rfl, rfl⟩

/-- A change of another name of the root directory. -/
theorem sameControl_change {op : DirectoryOp RootName} (checkpoint : ¬ op.Touches .checkpoint)
    (log : ¬ op.Touches .manifestLog) : fs.SameControl (rootDirectory.change op fs) where
  checkpoint := by
    show (fs.root.change op).entries[RootName.checkpoint]? = _
    rw [Directory.entries_change, DirectoryOp.getElem?_apply_of_not_touches checkpoint]
    rfl
  log := by
    show (fs.root.change op).entries[RootName.manifestLog]? = _
    rw [Directory.entries_change, DirectoryOp.getElem?_apply_of_not_touches log]
    rfl
  content _ := rfl

theorem sameControl_syncRoot {outcome : DurabilityOutcome}
    (returned : Returns (rootDirectory.syncDirectory outcome) fs found next) :
    fs.SameControl next := by
  obtain rfl := Returns.step returned
  exact ⟨rfl, rfl, fun _ => rfl⟩

theorem sameControl_removeRootTemporary {removed found : Nat} {name : RootName}
    (checkpoint : name ≠ .checkpoint) (log : name ≠ .manifestLog)
    (returned : Returns (removeRootTemporary removed name) fs found next) : fs.SameControl next := by
  have returned := returned.bind_read
  split at returned
  · obtain ⟨_, middle, removes, returned⟩ := returned.bind
    obtain ⟨-, rfl⟩ := returned.pure
    obtain ⟨-, removes⟩ := removes.bind_read.bind_require
    obtain rfl := removes.step
    exact sameControl_change checkpoint log
  · obtain ⟨-, rfl⟩ := returned.pure
    exact .refl _

theorem sameControl_removeRootTemporaries {found : Nat}
    (returned : Returns removeRootTemporaries fs found next) : fs.SameControl next := by
  obtain ⟨_, first, removes, returned⟩ := returned.bind
  have one := sameControl_removeRootTemporary (by decide) (by decide) removes
  obtain ⟨_, second, removes, returned⟩ := returned.bind
  have two := one.trans (sameControl_removeRootTemporary (by decide) (by decide) removes)
  obtain ⟨_, third, removes, returned⟩ := returned.bind
  have three := two.trans (sameControl_removeRootTemporary (by decide) (by decide) removes)
  split at returned
  · obtain ⟨_, last, synced, returned⟩ := returned.bind
    obtain ⟨-, rfl⟩ := returned.pure
    exact three.trans (sameControl_syncRoot synced)
  · obtain ⟨-, rfl⟩ := returned.pure
    exact three

theorem sameControl_ensureSegmentsDirectory
    (returned : Returns ensureSegmentsDirectory fs found next) : fs.SameControl next := by
  have returned := returned.bind_read
  split at returned
  · obtain ⟨-, rfl⟩ := returned.result
    exact .refl _
  · have synced := returned.bind_step
    have linked : fs.SameControl
        (rootDirectory.change (.link .segments 0) { fs with segments := .empty }) := by
      have changed : ({ fs with segments := .empty } : Fs).SameControl
          (rootDirectory.change (.link .segments 0) { fs with segments := .empty }) :=
        sameControl_change (by simp [DirectoryOp.Touches]) (by simp [DirectoryOp.Touches])
      exact ⟨changed.checkpoint, changed.log, changed.content⟩
    exact linked.trans (sameControl_syncRoot synced)

/-- A root with control files has them until they are recovered. -/
theorem sameControl_initialize {found : Nat} (held : rootDirectory.holds .checkpoint fs = true)
    (returned : Returns (initializeOrValidateRoot entropy) fs found next) :
    fs.SameControl next := by
  have returned := returned.bind_read
  split at returned
  · rw [returned.pure.2]
    exact .refl _
  · obtain ⟨_, first, -, returned⟩ := returned.bind
    obtain ⟨_, returned⟩ := returned.bind_require
    obtain ⟨missing, -⟩ := returned.bind_require
    simp [held] at missing

theorem sameControl_complete {rootId : RootId} (held : rootDirectory.holds .checkpoint fs = true)
    (logged : rootDirectory.holds .manifestLog fs = true)
    (returned : Returns (completeEmptyControlInitialization rootId) fs found next) :
    fs.SameControl next := by
  have returned := returned.bind_read
  rw [if_pos (by rw [held, logged]; rfl)] at returned
  rw [returned.result.2]
  exact .refl _

section

variable {config : Config} {opening : Opening}

/-- **An opening finds the control state of the files**, if there are control files. -/
theorem read_openControl (held : rootDirectory.holds .checkpoint fs = true)
    (logged : rootDirectory.holds .manifestLog fs = true)
    (returned : Returns (openControl config entropy) fs opening later) :
    ∃ checkpoint frames, fs.controlFrames = some (checkpoint, frames) ∧
      applyBodies checkpoint.control frames = some opening.recovery.control ∧
      checkpoint.rootId = opening.rootId ∧
      opening.recovery.checkpointNextSegmentId = checkpoint.nextSegmentId := by
  obtain ⟨_, -, returned⟩ := returned.bind_ofExcept
  obtain ⟨_, first, initializes, returned⟩ := returned.bind
  have same := sameControl_initialize held initializes
  obtain ⟨_, second, reads, returned⟩ := returned.bind
  rw [(returns_readCompleteFile reads).1] at returned
  obtain ⟨root, -, returned⟩ := returned.bind_ofExcept
  obtain ⟨_, third, ensures, returned⟩ := returned.bind
  replace same := same.trans (sameControl_ensureSegmentsDirectory ensures)
  obtain ⟨_, fourth, completes, returned⟩ := returned.bind
  obtain ⟨stillHeld, stillLogged⟩ := same.holds held logged
  replace same := same.trans (sameControl_complete stillHeld stillLogged completes)
  obtain ⟨_, fifth, removes, returned⟩ := returned.bind
  replace same := same.trans (sameControl_removeRootTemporaries removes)
  obtain ⟨recovery, sixth, recovers, returned⟩ := returned.bind
  obtain ⟨rfl, -⟩ := returned.pure
  obtain ⟨file, log, checkpoint, header, scan, accepts, rfl, -⟩ := returns_recover recovers
  obtain ⟨frames, isRead, applied⟩ := accepts.applied
  have named : checkpoint.rootId = root.rootId := by
    have isCheckpoint := accepts.isCheckpoint
    simp only [recoverCheckpoint, bind_eq_ok, ensure_eq_ok, decide_eq_true_eq, pure_eq_ok]
      at isCheckpoint
    obtain ⟨_, -, _, named, rfl⟩ := isCheckpoint
    exact named
  exact ⟨checkpoint, frames, same.controlFrames ▸ isRead, applied, named, rfl⟩

/-- An opening of a root with segments goes on only if there are control files. -/
theorem holds_openControl {file : Nat}
    (linked : rootDirectory.holds .segments fs = true)
    (isFile : segmentsDirectory.lookup (.log segmentId) fs = some file)
    (returned : Returns (openControl config entropy) fs opening later) :
    rootDirectory.holds .checkpoint fs = true ∧ rootDirectory.holds .manifestLog fs = true := by
  have nonempty : fs.segments.entries.isEmpty = false := by
    have isFile : fs.segments.entries[SegmentName.log segmentId]? = some file := isFile
    refine Bool.eq_false_iff.mpr fun empty => ?_
    rw [ExtTreeMap.isEmpty_iff.mp empty] at isFile
    simp at isFile
  obtain ⟨_, -, returned⟩ := returned.bind_ofExcept
  obtain ⟨_, first, initializes, returned⟩ := returned.bind
  obtain rfl : fs = first := by
    have initializes := initializes.bind_read
    split at initializes
    · exact initializes.pure.2.symm
    · obtain ⟨_, _, -, initializes⟩ := initializes.bind
      obtain ⟨missing, -⟩ := initializes.bind_require
      simp [linked, nonempty] at missing
  obtain ⟨_, second, reads, returned⟩ := returned.bind
  rw [(returns_readCompleteFile reads).1] at returned
  obtain ⟨root, -, returned⟩ := returned.bind_ofExcept
  obtain ⟨_, third, ensures, returned⟩ := returned.bind
  obtain ⟨_, fourth, completes, -⟩ := returned.bind
  have ensures := ensures.bind_read
  rw [if_pos linked] at ensures
  rw [ensures.result.2] at completes
  have completes := completes.bind_read
  split at completes
  · rename_i both
    exact Bool.and_eq_true_iff.mp both
  · obtain ⟨empty, -⟩ := completes.bind_observe.bind_require
    rw [nonempty] at empty
    cases empty

end

end ControlFiles

end

/-! ### The rules of the format -/

/-- A frame removed a segment. -/
def RemovedBy (frames : List ManifestBody) (segmentId : Nat) : Prop :=
  ∃ body, .segmentRemoved body ∈ frames ∧ body.segmentId = segmentId

/-- A frame sealed a segment. -/
def SealedBy (frames : List ManifestBody) (segmentId : Nat) : Prop :=
  ∃ body, .segmentSealed body ∈ frames ∧ body.segmentId = segmentId

/-- The checkpoint holds a segment in a lifecycle. -/
def Checkpoint.Lists (checkpoint : Checkpoint) (segmentId : Nat) (active : Bool) : Prop :=
  ∃ segment, checkpoint.segments[segmentId]? = some segment ∧ segment.lifecycle.isActive = active

section Rules

variable (storage : Storage) (checkpoint : Checkpoint) (held : Nat → List Identity)
  (before : List ManifestBody)

/-- **A record is released** by the checkpoint or by one of the frames. `held` are the records of the
segments. -/
def ReleasedBy (id : Identity) : Prop :=
  (∃ (segmentId : Nat) (segment : CheckpointSegment) (flags : List Bool) (ordinal : Nat),
    checkpoint.segments[segmentId]? = some segment ∧
    segment.releases.toFlags segment.recordCount = .ok flags ∧ flags[ordinal]? = some true ∧
    (held segmentId)[ordinal]? = some id) ∨
  ∃ body, .release body ∈ before ∧ body.covers id.1 id.2 = true

/-- **A record is pending after some frames**: a segment that was not removed holds it, and it is not
released. -/
def PendingAt (id : Identity) : Prop :=
  (∃ segmentId, id ∈ held segmentId ∧ ¬ RemovedBy before segmentId) ∧
    ¬ ReleasedBy checkpoint held before id

/-- The segment is sealed after some frames. -/
def SealedAt (segmentId : Nat) : Prop :=
  (checkpoint.Lists segmentId false ∨ SealedBy before segmentId) ∧ ¬ RemovedBy before segmentId

/-- **A frame is valid at its place**, after the frames before it. A release names durable records that
are pending; a seal a segment that is active in the checkpoint or allocated after it; a removal a sealed
segment of which nothing is pending. -/
def ManifestBody.ValidAt : ManifestBody → Prop
  | .release body => ∀ sequence, body.covers body.streamId sequence = true →
    (∃ highwater, storage.streamHighwater body.streamId = some highwater ∧ sequence ≤ highwater) ∧
      PendingAt checkpoint held before (body.streamId, sequence)
  | .segmentSealed body =>
    checkpoint.Lists body.segmentId true ∨ checkpoint.nextSegmentId ≤ body.segmentId
  | .segmentRemoved body => SealedAt checkpoint before body.segmentId ∧
      ∀ id ∈ held body.segmentId, ReleasedBy checkpoint held before id

end Rules

/-- **The rules for the manifest of an opened root.** Every frame is valid at its place; every live
segment is listed in the checkpoint or allocated after it, and the identities allocated after it, live
or removed, are contiguous. -/
structure ValidTransitions (storage : Storage) (checkpoint : Checkpoint) (frames : List ManifestBody)
    (held : Nat → List Identity) : Prop where
  valid : ∀ before body after, frames = before ++ body :: after →
    body.ValidAt storage checkpoint held before
  live : ∀ segmentId, storage.segments.contains segmentId = true →
    checkpoint.segments.contains segmentId = true ∨ checkpoint.nextSegmentId ≤ segmentId
  contiguous : ∃ bound, ∀ segmentId, checkpoint.nextSegmentId ≤ segmentId →
    (segmentId < bound ↔ RemovedBy frames segmentId ∨
      storage.segments.contains segmentId = true ∧ checkpoint.segments.contains segmentId = false)

/-- **What no check of an opening sees**: whether the records of a release are pending at its place,
whether a sealed segment that the checkpoint does not list was allocated after it, and whether the
records of a removed segment are released. -/
structure Unchecked (checkpoint : Checkpoint) (frames : List ManifestBody)
    (held : Nat → List Identity) : Prop where
  pending : ∀ before body after, frames = before ++ .release body :: after →
    ∀ sequence, body.covers body.streamId sequence = true →
      PendingAt checkpoint held before (body.streamId, sequence)
  allocated : ∀ segmentId, SealedBy frames segmentId →
    checkpoint.segments.contains segmentId = false → checkpoint.nextSegmentId ≤ segmentId
  released : ∀ before body after, frames = before ++ .segmentRemoved body :: after →
    ∀ id ∈ held body.segmentId, ReleasedBy checkpoint held before id

/-! ### The control state by its frames -/

/-- **The control state after some frames.** -/
structure ControlAt (checkpoint : Checkpoint) (frames : List ManifestBody) (control : Control) : Prop where
  removed : ∀ segmentId, control.removedSegments.contains segmentId = true ↔ RemovedBy frames segmentId
  live : ∀ segmentId entry, control.liveSegments[segmentId]? = some entry →
    ¬ RemovedBy frames segmentId ∧
    (entry.lifecycle.isActive = true → checkpoint.Lists segmentId true) ∧
    (entry.lifecycle.isActive = false → checkpoint.Lists segmentId false ∨ SealedBy frames segmentId) ∧
    (entry.checkpointRecordCount.isNone = true ↔ checkpoint.segments.contains segmentId = false)
  listed : ∀ segmentId, checkpoint.segments.contains segmentId = true →
    ¬ RemovedBy frames segmentId → control.liveSegments.contains segmentId = true
  releases : ∀ body, body ∈ control.releases ↔ .release body ∈ frames

section Replay

variable {checkpoint : Checkpoint} {frames : List ManifestBody} {control next : Control}

theorem controlAt_checkpoint (checkpoint : Checkpoint) : ControlAt checkpoint [] checkpoint.control where
  removed segmentId := by simp [Checkpoint.control, RemovedBy]
  live segmentId entry found := by
    simp only [Checkpoint.control, ExtTreeMap.getElem?_map, Option.map_eq_some_iff] at found
    obtain ⟨segment, isSegment, rfl⟩ := found
    refine ⟨by simp [RemovedBy], fun active => ⟨segment, isSegment, active⟩,
      fun inactive => .inl ⟨segment, isSegment, inactive⟩, ?_⟩
    simp [ExtTreeMap.contains_eq_isSome_getElem?, isSegment]
  listed segmentId isListed _ := by simpa [Checkpoint.control] using isListed
  releases body := by simp [Checkpoint.control]

theorem removedBy_append {body : ManifestBody} :
    RemovedBy (frames ++ [body]) segmentId ↔ RemovedBy frames segmentId ∨
      ∃ removed, body = .segmentRemoved removed ∧ removed.segmentId = segmentId := by
  simp only [RemovedBy, List.mem_append, List.mem_singleton, or_and_right, exists_or, eq_comm]

theorem SealedBy.append (isSealed : SealedBy frames segmentId) (body : ManifestBody) :
    SealedBy (frames ++ [body]) segmentId := by
  obtain ⟨frame, member, same⟩ := isSealed
  exact ⟨frame, List.mem_append_left _ member, same⟩

/-- A release changes nothing but the list of releases. -/
theorem ControlAt.release (stands : ControlAt checkpoint frames control) (body : ReleaseBody) :
    ControlAt checkpoint (frames ++ [.release body])
      { control with releases := control.releases ++ [body] } where
  removed segmentId := by
    rw [removedBy_append]
    simpa using stands.removed segmentId
  live segmentId entry found := by
    obtain ⟨kept, active, inactive, counted⟩ := stands.live segmentId entry found
    refine ⟨?_, active, fun isSealed => (inactive isSealed).imp_right (·.append _), counted⟩
    rw [removedBy_append]
    simpa using kept
  listed segmentId isListed kept := by
    rw [removedBy_append, not_or] at kept
    exact stands.listed segmentId isListed kept.1
  releases other := by
    rw [List.mem_append, List.mem_append, stands.releases, List.mem_singleton, List.mem_singleton,
      ManifestBody.release.injEq]

/-- A seal is of an active segment of the checkpoint or of one that nothing knew. -/
theorem ControlAt.seal (stands : ControlAt checkpoint frames control) {body : SegmentSealedBody}
    (applied : applyBody control (.segmentSealed body) = some next) :
    ControlAt checkpoint (frames ++ [.segmentSealed body]) next ∧
      (checkpoint.Lists body.segmentId true ∨
        checkpoint.segments.contains body.segmentId = false) := by
  rw [applyBody, toOption_eq_some] at applied
  simp only [applyFrame, bind_eq_ok, ensure_eq_ok, Bool.not_eq_true'] at applied
  obtain ⟨_, kept, applied⟩ := applied
  have extant : ¬ RemovedBy frames body.segmentId := by
    rw [← stands.removed, kept]
    exact Bool.false_ne_true
  -- In both cases the entry of the segment is replaced by a sealed one.
  have replaced : ∃ entry : ControlSegment, next = { control with
        liveSegments := control.liveSegments.insert body.segmentId entry } ∧
      entry.lifecycle.isActive = false ∧
      (entry.checkpointRecordCount.isNone = true ↔
        checkpoint.segments.contains body.segmentId = false) ∧
      (checkpoint.Lists body.segmentId true ∨
        checkpoint.segments.contains body.segmentId = false) := by
    cases found : control.liveSegments[body.segmentId]? with
    | some segment =>
      simp only [found, bind_eq_ok, ensure_eq_ok, pure_eq_ok] at applied
      obtain ⟨_, active, rfl⟩ := applied
      obtain ⟨-, isListed, -, counted⟩ := stands.live _ segment found
      exact ⟨_, rfl, rfl, counted, .inl (isListed active)⟩
    | none =>
      simp only [found, pure_eq_ok] at applied
      have unlisted : checkpoint.segments.contains body.segmentId = false := by
        refine Bool.eq_false_iff.mpr fun isListed => ?_
        have live := stands.listed _ isListed extant
        rw [ExtTreeMap.contains_eq_isSome_getElem?, found] at live
        cases live
      exact ⟨_, applied.symm, rfl, by simp [unlisted], .inr unlisted⟩
  obtain ⟨entry, rfl, isSealed, counted, known⟩ := replaced
  refine ⟨⟨fun segmentId => ?_, fun segmentId other found => ?_, fun segmentId isListed remains => ?_,
    fun other => ?_⟩, known⟩
  · rw [removedBy_append]
    simpa using stands.removed segmentId
  · rw [removedBy_append]
    obtain ⟨rfl, rfl⟩ | ⟨-, found⟩ := Maps.getElem?_insert_eq_some.mp found
    · refine ⟨by simpa using extant, fun active => ?_, fun _ => .inr ⟨body, by simp, rfl⟩, counted⟩
      rw [isSealed] at active
      cases active
    · obtain ⟨remains, active, inactive, counted⟩ := stands.live segmentId other found
      exact ⟨by simpa using remains, active, fun quiet => (inactive quiet).imp_right (·.append _),
        counted⟩
  · rw [removedBy_append, not_or] at remains
    rw [ExtTreeMap.contains_insert, stands.listed segmentId isListed remains.1, Bool.or_true]
  · rw [stands.releases]
    simp

/-- A removal is of a sealed segment. -/
theorem ControlAt.remove (stands : ControlAt checkpoint frames control) {body : SegmentRemovedBody}
    (applied : applyBody control (.segmentRemoved body) = some next) :
    ControlAt checkpoint (frames ++ [.segmentRemoved body]) next ∧
      SealedAt checkpoint frames body.segmentId := by
  rw [applyBody, toOption_eq_some] at applied
  simp only [applyFrame, bind_eq_ok, ensure_eq_ok, orError_eq_ok,
    pure_eq_ok, Bool.not_eq_true'] at applied
  obtain ⟨segment, found, _, isSealed, highwaters, -, _, -, rfl⟩ := applied
  obtain ⟨extant, -, known, -⟩ := stands.live _ segment found
  refine ⟨⟨fun segmentId => ?_, fun segmentId other live => ?_, fun segmentId isListed remains => ?_,
    fun other => ?_⟩, known isSealed, extant⟩
  · rw [removedBy_append, ExtTreeMap.contains_insert, Bool.or_eq_true, stands.removed]
    simp [or_comm]
  · rw [removedBy_append]
    obtain ⟨different, live⟩ := Maps.getElem?_erase_eq_some.mp live
    obtain ⟨remains, active, inactive, counted⟩ := stands.live segmentId other live
    exact ⟨by simpa [different] using remains, active,
      fun quiet => (inactive quiet).imp_right (·.append _), counted⟩
  · rw [removedBy_append, not_or] at remains
    have different : body.segmentId ≠ segmentId := fun same => remains.2 ⟨body, rfl, same⟩
    simp [ExtTreeMap.contains_erase, different, stands.listed segmentId isListed remains.1]
  · rw [stands.releases]
    simp

/-- **The control state after the frames of a log** is the one its frames describe. -/
theorem controlAt_applyBodies (applied : applyBodies checkpoint.control frames = some control) :
    ControlAt checkpoint frames control := by
  induction frames using List.reverseRecOn generalizing control with
  | nil =>
    obtain rfl := Option.some.inj applied
    exact controlAt_checkpoint checkpoint
  | append_singleton rest body ih =>
    rw [applyBodies_append] at applied
    obtain ⟨middle, isMiddle, applied⟩ := Option.bind_eq_some_iff.mp applied
    have stands := ih isMiddle
    obtain ⟨next, isNext, same⟩ := Option.bind_eq_some_iff.mp applied
    obtain rfl := Option.some.inj same
    cases body with
    | release body =>
      obtain rfl := Option.some.inj isNext
      exact stands.release body
    | segmentSealed body => exact (stands.seal isNext).1
    | segmentRemoved body => exact (stands.remove isNext).1

theorem Checkpoint.Lists.contains {active : Bool} (lists : checkpoint.Lists segmentId active) :
    checkpoint.segments.contains segmentId = true := by
  obtain ⟨segment, found, -⟩ := lists
  rw [ExtTreeMap.contains_eq_isSome_getElem?, found]
  rfl

/-- A live segment that the checkpoint does not list was sealed by a frame. -/
theorem ControlAt.sealedBy (stands : ControlAt checkpoint frames control) {entry : ControlSegment}
    (found : control.liveSegments[segmentId]? = some entry)
    (unlisted : checkpoint.segments.contains segmentId = false) : SealedBy frames segmentId := by
  obtain ⟨-, active, inactive, -⟩ := stands.live segmentId entry found
  have absurdly : ∀ isActive, ¬ checkpoint.Lists segmentId isActive := fun isActive lists => by
    rw [lists.contains] at unlisted
    cases unlisted
  cases isActive : entry.lifecycle.isActive with
  | true => exact absurd (active isActive) (absurdly true)
  | false => exact (inactive isActive).resolve_left (absurdly false)

/-- What the replay checks of the frame after some others. -/
theorem checked_applyBodies {before after : List ManifestBody} {body : ManifestBody}
    (applied : applyBodies checkpoint.control (before ++ body :: after) = some control) :
    match body with
    | .release _ => True
    | .segmentSealed body => checkpoint.Lists body.segmentId true ∨
        checkpoint.segments.contains body.segmentId = false
    | .segmentRemoved body => SealedAt checkpoint before body.segmentId := by
  rw [applyBodies_append] at applied
  obtain ⟨middle, isMiddle, applied⟩ := Option.bind_eq_some_iff.mp applied
  obtain ⟨next, isNext, -⟩ := Option.bind_eq_some_iff.mp applied
  have stands := controlAt_applyBodies isMiddle
  cases body with
  | release body => trivial
  | segmentSealed body => exact (stands.seal isNext).2
  | segmentRemoved body => exact (stands.remove isNext).2

end Replay

/-! ### The durable records of a release -/

section Durable

variable {streams final : StreamMap}

/-- A release that is applied names sequences up to the high-water of its stream. -/
theorem durable_applyRelease {locations : ExtTreeMap Identity RecordPointer} {next : SegmentMap}
    {body : ReleaseBody} (applied : applyRelease streams locations segments body = .ok next)
    (covered : body.covers body.streamId sequence = true) :
    ∃ highwater, (streams.entry body.streamId).highwater = some highwater ∧ sequence ≤ highwater := by
  simp only [applyRelease, bind_eq_ok, orError_eq_ok] at applied
  obtain ⟨highwater, known, folded⟩ := applied
  obtain ⟨-, range, member, above, below⟩ := covers_iff.mp covered
  have bounded := tryFold_forall
    (fun (range : SequenceRange) (_ : SegmentMap) => ∀ value, range.Contains value → value ≤ highwater)
    (fun total range next _ stepped value holds => by
      simp only [releaseRange, malformed, bind_eq_ok, mapError_eq_ok,
        ensure_eq_ok, decide_eq_true_eq] at stepped
      obtain ⟨finish, ends, _, short, -⟩ := stepped
      obtain ⟨_, rfl, -⟩ := SequenceRange.finish_eq_ok.mp ends
      obtain ⟨_, under⟩ := holds
      omega)
    (fun _ _ _ _ _ _ _ kept => kept) folded range member
  refine ⟨highwater, ?_, bounded sequence ⟨above, below⟩⟩
  unfold StreamMap.entry
  cases found : streams[body.streamId]? with
  | none =>
    rw [found] at known
    cases known
  | some stream =>
    rw [found] at known
    exact known

/-- **Recovery refuses a release beyond the records of its stream.** -/
theorem durable_rebuildIndexes {scanned : SegmentMap} {highwaters : Highwaters}
    {control : Control}
    (rebuilt : rebuildIndexes scanned highwaters control = .ok (segments, final))
    {body : ReleaseBody} (member : body ∈ control.releases)
    (covered : body.covers body.streamId sequence = true) :
    ∃ highwater, (final.entry body.streamId).highwater = some highwater ∧ sequence ≤ highwater := by
  obtain ⟨replay, indexed, ⟨_, -, -, isReleased⟩, isIndexed, isFinal⟩ :=
    rebuildIndexes_eq_ok.mp rebuilt
  rw [(applyDurableHighwaters_entry isFinal _).1, (indexSegments_entry isIndexed _).2.2]
  exact tryFold_forall
    (fun (body : ReleaseBody) (_ : SegmentMap) => body.covers body.streamId sequence = true →
      ∃ highwater, (replay.streams.entry body.streamId).highwater = some highwater ∧
        sequence ≤ highwater)
    (fun _ _ _ _ stepped isCovered => durable_applyRelease stepped isCovered)
    (fun _ _ _ _ _ _ _ kept => kept) isReleased body member covered

end Durable

/-! ### The allocated segments -/

section Allocated

/-- The identities after the checkpoint follow each other. -/
theorem followSuffix_eq_range {ids : List Nat} {start : Nat} {last : Option Nat}
    (followed : tryFold followSuffix (some start) ids = .ok last) :
    ids = List.range' start ids.length := by
  induction ids generalizing start with
  | nil => rfl
  | cons first rest ih =>
    simp only [tryFold_cons, followSuffix, bind_eq_ok, ensure_eq_ok,
      pure_eq_ok, decide_eq_true_eq, Option.some.injEq] at followed
    obtain ⟨_, ⟨_, rfl, rfl⟩, followed⟩ := followed
    rw [List.length_cons, List.range'_succ]
    cases rest with
    | nil => rfl
    | cons second others =>
      cases isNext : checkedAdd start 1 with
      | none =>
        rw [isNext, tryFold_cons, followSuffix] at followed
        cases followed
      | some next =>
        obtain ⟨rfl, -⟩ := checkedAdd_eq_some.mp isNext
        rw [isNext] at followed
        rw [← ih followed]

variable {checkpointNext : Nat} {control : Control} {ids : List Nat}

theorem mem_suffixIds : segmentId ∈ suffixIds checkpointNext control ids ↔
    (∃ entry, control.liveSegments[segmentId]? = some entry ∧
      entry.checkpointRecordCount.isNone = true ∧ checkpointNext ≤ segmentId) ∨
    (control.removedSegments.contains segmentId = true ∧ checkpointNext ≤ segmentId) ∨
    (segmentId ∈ ids ∧ control.liveSegments.contains segmentId = false) := by
  rw [suffixIds, ExtTreeSet.mem_toList, ExtTreeSet.mem_ofList, List.contains_iff_mem,
    List.mem_append, List.mem_append, List.mem_map, or_assoc]
  refine or_congr ⟨?_, ?_⟩ (or_congr ?_ ?_)
  · rintro ⟨⟨found, entry⟩, member, rfl⟩
    rw [List.mem_filter, Bool.and_eq_true, decide_eq_true_eq,
      ExtTreeMap.mem_toList_iff_getElem?_eq_some] at member
    exact ⟨entry, member.1, member.2⟩
  · rintro ⟨entry, found, counted⟩
    refine ⟨(segmentId, entry), ?_, rfl⟩
    rw [List.mem_filter, Bool.and_eq_true, decide_eq_true_eq,
      ExtTreeMap.mem_toList_iff_getElem?_eq_some]
    exact ⟨found, counted⟩
  · rw [List.mem_filter, ExtTreeMap.mem_keys, decide_eq_true_eq, ExtTreeMap.contains_iff_mem]
  · rw [List.mem_filter, Bool.not_eq_true']

/-- **The segments that an opening accepts**: each is known to the control state or allocated after the
checkpoint, and those after it are contiguous. -/
theorem explainSegments_eq_ok (explained : explainSegments checkpointNext control ids = .ok ()) :
    (∀ segmentId ∈ ids, control.liveSegments.contains segmentId = true ∨
      checkpointNext ≤ segmentId) ∧
    ∃ bound, ∀ segmentId, segmentId ∈ suffixIds checkpointNext control ids ↔
      checkpointNext ≤ segmentId ∧ segmentId < bound := by
  simp only [explainSegments, bind_eq_ok] at explained
  obtain ⟨_, checked, _, followed, -⟩ := explained
  refine ⟨fun segmentId member => ?_,
    checkpointNext + (suffixIds checkpointNext control ids).length, fun segmentId => ?_⟩
  · have one := forall_of_tryMap_eq_ok checked segmentId member
    simpa [ensure_eq_ok] using one
  · rw [followSuffix_eq_range followed, List.mem_range'_1, List.length_range']

end Allocated

section Opened

variable [Hasher] {fs left : Fs} {rootId : RootId} {control : Control}

theorem mem_scanSegments {found final : ScannedSegments} {ids : List Nat}
    (returned : Returns (scanSegments rootId control found ids) fs final left) (segmentId : Nat) :
    segmentId ∈ final.segments ↔ segmentId ∈ found.segments ∨ segmentId ∈ ids := by
  induction ids generalizing found fs with
  | nil =>
    obtain ⟨rfl, -⟩ := Returns.result returned
    simp
  | cons first rest ih =>
    obtain ⟨next, middle, scans, scansRest⟩ := returned.bind
    obtain ⟨segment, scannedFs, isScanned, classifies⟩ := scans.bind
    obtain ⟨classified, rfl⟩ := Returns.ofExcept classifies
    obtain ⟨-, rfl, -⟩ := measured_scan isScanned
    rw [ih scansRest, (classifySegment_eq_ok classified).1, ExtTreeMap.mem_insert, List.mem_cons,
      LawfulEqCmp.compare_eq_iff_eq, @eq_comm _ segment.id]
    tauto

theorem returns_completeSeals {manifest final : Manifest} {last : Control} {footers : List SegmentFooter}
    (returned : Returns (completeSeals manifest control footers) fs (final, last) left) :
    last.releases = control.releases := by
  induction footers generalizing manifest control fs with
  | nil =>
    obtain ⟨same, -⟩ := Returns.result returned
    exact congrArg (·.2.releases) same
  | cons footer rest ih =>
    obtain ⟨appended, middle, -, returned⟩ := returned.bind
    have kept := ih returned
    exact kept

theorem returns_explained {recovery : ControlRecovery} {found : Enumerated}
    (returned : Returns (enumerateSegments rootId recovery listing) fs found left) :
    explainSegments recovery.checkpointNextSegmentId recovery.control found.segments.toList =
      .ok () := by
  obtain ⟨listed, middle, -, returned⟩ := returned.bind_observe.bind_read.bind
  obtain ⟨_, _, -, returned⟩ := returned.bind
  obtain ⟨_, explained, returned⟩ := returned.bind_ofExcept
  obtain ⟨rfl, -⟩ := returned.pure
  exact explained

/-- The checks of an opening that are about frames and segments. -/
structure ChecksOf (storage : Storage) (checkpoint : Checkpoint) (frames : List ManifestBody)
    (control : Control) : Prop where
  applied : applyBodies checkpoint.control frames = some control
  durable : ∀ body ∈ control.releases, ∀ sequence, body.covers body.streamId sequence = true →
    ∃ highwater, storage.streamHighwater body.streamId = some highwater ∧ sequence ≤ highwater
  extant : ∀ segmentId, storage.segments.contains segmentId = true →
    control.removedSegments.contains segmentId = false ∧
      (control.liveSegments.contains segmentId = true ∨ checkpoint.nextSegmentId ≤ segmentId)
  present : ∀ segmentId, control.liveSegments.contains segmentId = true →
    storage.segments.contains segmentId = true
  allocated : ∃ bound, ∀ segmentId, checkpoint.nextSegmentId ≤ segmentId →
    (segmentId < bound ↔
      (∃ entry, control.liveSegments[segmentId]? = some entry ∧
        entry.checkpointRecordCount.isNone = true) ∨
      control.removedSegments.contains segmentId = true ∨
      (storage.segments.contains segmentId = true ∧
        control.liveSegments.contains segmentId = false))

/-- **What an opening has checked** when it succeeds. -/
theorem checks_open {config : Config} {storage : Storage} {checkpoint : Checkpoint}
    {frames : List ManifestBody}
    (returned : Returns (Storage.open config entropy listing) fs storage left)
    (isRead : fs.controlFrames = some (checkpoint, frames)) :
    ∃ control, ChecksOf storage checkpoint frames control := by
  rw [open_eq] at returned
  obtain ⟨opening, middle, controlled, returned⟩ := returned.bind
  obtain ⟨held, logged⟩ := holds_of_controlFrames isRead
  obtain ⟨_, _, isFound, applied, -, first⟩ := read_openControl held logged controlled
  cases isRead.symm.trans isFound
  obtain ⟨listed, enumerated, enumerates, returned⟩ := returned.bind
  obtain ⟨scanned, afterScan, scans, returned⟩ := returned.bind
  obtain ⟨active, isActive, returned⟩ := returned.bind_ofExcept
  obtain ⟨⟨manifest, final⟩, afterSeals, completes, returned⟩ := returned.bind
  obtain ⟨base, assembled, returned⟩ := returned.bind_ofExcept
  obtain ⟨actual, _, -, returned⟩ := returned.bind
  obtain ⟨_, -, returned⟩ := returned.bind_ofExcept
  obtain ⟨rfl, rfl⟩ := returned.pure
  have sameReleases := returns_completeSeals completes
  obtain ⟨explained, bound, isBound⟩ := explainSegments_eq_ok (returns_explained enumerates)
  obtain ⟨-, -, segments, assembles⟩ := assembleStorage_eq_ok assembled
  have extant : ∀ segmentId, base.segments.contains segmentId = true ↔
      segmentId ∈ listed.segments := by
    intro segmentId
    rw [ExtTreeMap.contains_iff_mem, assembles.sameSegments.mem_iff, mem_scanSegments scans]
    simp
  refine ⟨opening.recovery.control, applied, fun body member sequence covered => ?_, fun segmentId held => ?_,
    fun segmentId live => ?_, bound, fun segmentId after => ?_⟩
  · exact durable_rebuildIndexes assembles.rebuilt (by rw [sameReleases]; exact member) covered
  · have member := (extant segmentId).mp held
    exact ⟨((mem_enumerateSegments enumerates segmentId).mp member).2,
      first ▸ explained segmentId (by simpa using member)⟩
  · simp only [validateScannedSegments, bind_eq_ok] at isActive
    obtain ⟨_, complete, -⟩ := isActive
    have one := forall_of_tryMap_eq_ok complete segmentId
      (ExtTreeMap.mem_keys.mpr (ExtTreeMap.contains_iff_mem.mp live))
    have isScanned := ensure_eq_ok.mp one
    rw [ExtTreeMap.contains_iff_mem, mem_scanSegments scans] at isScanned
    refine (extant segmentId).mpr ?_
    simpa using isScanned
  · have suffix := isBound segmentId
    rw [mem_suffixIds] at suffix
    have listing : segmentId ∈ listed.segments.toList ↔ base.segments.contains segmentId = true := by
      rw [extant, ExtTreeSet.mem_toList]
    rw [listing] at suffix
    simp only [first, after, and_true, true_and] at suffix
    exact suffix.symm

/-- The frame removes a segment. -/
def ManifestBody.removes (segmentId : Nat) : ManifestBody → Bool
  | .segmentRemoved body => body.segmentId = segmentId
  | _ => false

/-- The records of the segments: of those with a file that no frame removes, the records of its
complete epochs; of the others whatever they held. -/
def Fs.heldOr (fs : Fs) (frames : List ManifestBody) (removed : Nat → List Identity)
    (segmentId : Nat) : List Identity :=
  match segmentsDirectory.lookup (.log segmentId) fs with
  | none => removed segmentId
  | some file =>
    if frames.any (ManifestBody.removes segmentId) then removed segmentId
    else
      match scanEpochs (.segment (.log segmentId)) (fs.content file) true none
        (fs.content file).length segmentHeaderLen [] [] with
      | .ok scanned => scanned.records.map fun record => (record.streamId, record.sequence)
      | .error _ => []

/-- **Recovery accepts exactly the valid manifests among those that meet what it cannot see.** In an
opening that succeeds, whatever the removed segments held, the manifest is valid if and only if every
release names records that are pending at its place, every sealed segment that the checkpoint does not
list was allocated after it, and the records of every removed segment were released. -/
theorem transitions_valid_iff {config : Config} {entropy : RootId} {listing : Listing}
    {storage : Storage} {checkpoint : Checkpoint} {frames : List ManifestBody}
    (returned : Returns (Storage.open config entropy listing) fs storage left)
    (isRead : fs.controlFrames = some (checkpoint, frames)) (removed : Nat → List Identity) :
    ValidTransitions storage checkpoint frames (fs.heldOr frames removed) ↔
      Unchecked checkpoint frames (fs.heldOr frames removed) := by
  obtain ⟨control, checks⟩ := checks_open returned isRead
  have stands := controlAt_applyBodies checks.applied
  constructor
  · intro valid
    refine ⟨fun before body after split sequence covered => ?_, fun segmentId isSealed unlisted => ?_,
      fun before body after split => (valid.valid before _ after split).2⟩
    · exact (valid.valid before _ after split sequence covered).2
    · obtain ⟨body, member, rfl⟩ := isSealed
      obtain ⟨before, after, split⟩ := List.append_of_mem member
      rcases valid.valid before _ after split with ⟨segment, found, -⟩ | allocated
      · rw [ExtTreeMap.contains_eq_isSome_getElem?, found] at unlisted
        cases unlisted
      · exact allocated
  · intro unchecked
    refine ⟨fun before body after split => ?_, fun segmentId live => ?_, ?_⟩
    · have checked := checked_applyBodies (split ▸ checks.applied)
      cases body with
      | release body =>
        intro sequence covered
        refine ⟨checks.durable body ?_ sequence covered,
          unchecked.pending before body after split sequence covered⟩
        rw [stands.releases, split]
        exact List.mem_append_right _ List.mem_cons_self
      | segmentSealed body =>
        refine checked.imp_right fun unlisted => unchecked.allocated _ ⟨body, ?_, rfl⟩ unlisted
        rw [split]
        exact List.mem_append_right _ List.mem_cons_self
      | segmentRemoved body => exact ⟨checked, unchecked.released before body after split⟩
    · rcases (checks.extant segmentId live).2 with known | allocated
      · by_cases isListed : checkpoint.segments.contains segmentId = true
        · exact .inl isListed
        · have unlisted := Bool.eq_false_iff.mpr isListed
          refine .inr (unchecked.allocated segmentId ?_ unlisted)
          rw [ExtTreeMap.contains_eq_isSome_getElem?, Option.isSome_iff_exists] at known
          obtain ⟨entry, found⟩ := known
          exact stands.sealedBy found unlisted
      · exact .inr allocated
    · obtain ⟨bound, isBound⟩ := checks.allocated
      refine ⟨bound, fun segmentId after => (isBound segmentId after).trans ?_⟩
      rw [← stands.removed]
      constructor
      · rintro (⟨entry, found, uncounted⟩ | isRemoved | ⟨extant, unknown⟩)
        · have live : control.liveSegments.contains segmentId = true := by
            rw [ExtTreeMap.contains_eq_isSome_getElem?, found]
            rfl
          exact .inr ⟨checks.present segmentId live, (stands.live segmentId entry found).2.2.2.mp uncounted⟩
        · exact .inl isRemoved
        · refine .inr ⟨extant, Bool.eq_false_iff.mpr fun isListed => ?_⟩
          have kept : ¬ RemovedBy frames segmentId := by
            rw [← stands.removed, (checks.extant segmentId extant).1]
            exact Bool.false_ne_true
          rw [stands.listed segmentId isListed kept] at unknown
          cases unknown
      · rintro (isRemoved | ⟨extant, unlisted⟩)
        · exact .inr (.inl isRemoved)
        · cases found : control.liveSegments[segmentId]? with
          | some entry =>
            exact .inl ⟨entry, rfl, (stands.live segmentId entry found).2.2.2.mpr unlisted⟩
          | none =>
            refine .inr (.inr ⟨extant, ?_⟩)
            rw [ExtTreeMap.contains_eq_isSome_getElem?, found]
            rfl

end Opened

/-! ### Sample logs -/

namespace ReplaySample

/-- The release of the first record of stream 1. -/
def release : ReleaseBody := ⟨1, [⟨0, 1⟩]⟩

/-- A root with one record, which was released. -/
def once : Option Fs :=
  (Sample.run .sample [Sample.append [Sample.unit 1], Sample.release 1 0]).map World.fs

/-- The same root with the frame of the release a second time. -/
def twice : Option Fs := do
  let fs ← once
  let log ← rootDirectory.lookup .manifestLog fs
  return fs.modifyNode log (·.append (@frameBytes Hasher.fnv 2 (.release release)))

/-- An opening of a root, with what was read from its control files. -/
def opening (fs : Fs) : Option (World × Checkpoint × List ManifestBody) := do
  let world ← Sample.opens .sample fs
  let (checkpoint, frames) ← @Fs.controlFrames Hasher.fnv fs
  return (world, checkpoint, frames)

theorem of_opening {fs : Fs} {world : World} {checkpoint : Checkpoint} {frames : List ManifestBody}
    (found : opening fs = some (world, checkpoint, frames)) :
    Returns (@Storage.open Hasher.fnv .sample .sample .sorted) fs
      world.storage world.fs ∧
      @Fs.controlFrames Hasher.fnv fs = some (checkpoint, frames) := by
  simp only [opening, Option.bind_eq_bind, Option.bind_eq_some_iff, Option.pure_def,
    Option.some.injEq, Prod.mk.injEq, Prod.exists] at found
  obtain ⟨_, isOpened, _, _, isRead, rfl, rfl, rfl⟩ := found
  exact ⟨Sample.returns_of_opens isOpened, isRead⟩

end ReplaySample

section

open ReplaySample

/-- **Recovery accepts a release of records that are not pending**: the second of two equal frames. -/
theorem release_twice_accepted : ∃ fs storage left checkpoint,
    Returns (@Storage.open Hasher.fnv .sample .sample .sorted) fs storage
      left ∧
    @Fs.controlFrames Hasher.fnv fs = some (checkpoint, [.release release, .release release]) ∧
    ∀ removed, ¬ ValidTransitions storage checkpoint [.release release, .release release]
      (@Fs.heldOr Hasher.fnv fs [.release release, .release release] removed) := by
  have evaluated : (twice.bind fun fs => (opening fs).map fun found => (fs, found)).any
      (fun (_, _, _, frames) => decide (frames = [.release release, .release release])) = true := by
    decide +kernel
  obtain ⟨⟨fs, world, checkpoint, frames⟩, found, checked⟩ := exists_of_any evaluated
  obtain ⟨_, -, found⟩ := Option.bind_eq_some_iff.mp found
  obtain ⟨opened, isOpening, same⟩ := Option.map_eq_some_iff.mp found
  obtain ⟨rfl, rfl⟩ := Prod.mk.inj same
  obtain rfl := of_decide_eq_true checked
  obtain ⟨returned, isRead⟩ := of_opening isOpening
  refine ⟨_, _, _, _, returned, isRead, fun removed valid => ?_⟩
  have second := valid.valid [.release release] _ [] rfl 0 (by decide)
  exact second.2.2 (.inr ⟨release, List.mem_singleton_self _, by decide⟩)

/-- The release of a pending record is valid. -/
theorem transitions_valid_iff_sample : ∃ fs storage left checkpoint,
    Returns (@Storage.open Hasher.fnv .sample .sample .sorted) fs storage
      left ∧
    @Fs.controlFrames Hasher.fnv fs = some (checkpoint, [.release release]) ∧
    ValidTransitions storage checkpoint [.release release]
      (@Fs.heldOr Hasher.fnv fs [.release release] fun _ => []) := by
  have evaluated : (once.bind fun fs => (opening fs).map fun found => (fs, found)).any
      (fun (fs, _, checkpoint, frames) => decide (frames = [.release release]) &&
        checkpoint.segments.isEmpty &&
        decide ((1, 0) ∈ @Fs.heldOr Hasher.fnv fs [.release release] (fun _ => []) 0)) = true := by
    decide +kernel
  obtain ⟨⟨fs, world, checkpoint, frames⟩, found, checked⟩ := exists_of_any evaluated
  obtain ⟨_, -, found⟩ := Option.bind_eq_some_iff.mp found
  obtain ⟨opened, isOpening, same⟩ := Option.map_eq_some_iff.mp found
  obtain ⟨rfl, rfl⟩ := Prod.mk.inj same
  simp only [Bool.and_eq_true, decide_eq_true_eq] at checked
  obtain ⟨⟨rfl, empty⟩, isHeld⟩ := checked
  obtain ⟨returned, isRead⟩ := of_opening isOpening
  refine ⟨_, _, _, _, returned, isRead,
    (@transitions_valid_iff Hasher.fnv _ _ _ _ _ _ _ _ returned isRead _).mpr ?_⟩
  refine ⟨fun before body after split sequence covered => ?_, fun segmentId isSealed => ?_,
    fun before body after split => ?_⟩
  · cases before with
    | nil =>
      obtain ⟨isRelease, -⟩ := List.cons.inj split
      obtain rfl := ManifestBody.release.inj isRelease
      obtain rfl : sequence = 0 := by
        obtain ⟨-, range, member, holds⟩ := covers_iff.mp covered
        rw [List.mem_singleton.mp member] at holds
        exact Nat.lt_one_iff.mp holds.2
      refine ⟨⟨0, isHeld, by simp [RemovedBy]⟩, ?_⟩
      rintro (⟨segmentId, segment, -, -, found, -⟩ | ⟨_, member, -⟩)
      · rw [ExtTreeMap.isEmpty_iff.mp empty, ExtTreeMap.getElem?_empty] at found
        cases found
      · cases member
    | cons _ rest => cases rest <;> simp at split
  · obtain ⟨_, member, -⟩ := isSealed
    simp at member
  · cases before with
    | nil => simp at split
    | cons _ rest => cases rest <;> simp at split

end

end Camus
