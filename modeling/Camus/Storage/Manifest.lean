/-
**The manifest.**

The control state of a root: a checkpoint and a log of frames after it.

* `recover` reads the checkpoint, walks the log, skips the frames the checkpoint already holds
  (the sequence fence) and applies the others in order (`applyFrame`).
* `Manifest.appendGroup` adds frames to the log in one write and makes it durable.
* `Manifest.compact` publishes a new checkpoint and then an empty log.
-/

import Camus.Format.Checkpoint
import Camus.Storage.Segment

namespace Camus

open Codec Checked Disk FaultIo Result Std

/-! ### Data -/

/-- What the control state says of a live segment. The last two fields are those of the checkpoint. -/
structure ControlSegment where
  lifecycle : SegmentLifecycle
  checkpointRecordCount : Option Nat
  checkpointReleases : Option ReleaseEncoding
deriving DecidableEq

/-- The control state as frames change it. -/
structure Control where
  liveSegments : ExtTreeMap Nat ControlSegment
  removedSegments : ExtTreeMap Nat SegmentRemovedBody
  releases : List ReleaseBody
  streamHighwaters : Highwaters

/-- The open manifest. `file` is the inode of the log. -/
structure Manifest where
  file : Nat
  checkpointLen : Nat
  logLen : Nat
  lastSeq : Nat
deriving DecidableEq

/-- What recovery finds in the manifest. -/
structure ControlRecovery where
  framesScanned : Nat
  repairedTail : Bool
  checkpointNextSegmentId : Nat
  checkpointStreamHighwaters : Highwaters
  control : Control
  manifest : Manifest

/-- The state of a walk through the log. -/
structure LogWalk where
  lastSeq : Nat
  framesScanned : Nat
  control : Control

/-- What a walk through the log finds. `repair` is the length to cut the file to. -/
structure LogScan where
  walk : LogWalk
  repair : Option Nat

/-- The path of the manifest log. -/
def manifestPath : Artifact := .entry .manifestLog

/-- The path of the checkpoint. -/
def checkpointPath : Artifact := .entry .checkpoint

/-! ### Frames -/

/-- Raises the durable high-water of one stream. -/
def advanceHighwater (path : Artifact) (offset : Nat) (highwaters : Highwaters)
    (highwater : StreamHighwater) : Except Error Highwaters := do
  ensure (highwaters[highwater.streamId]?.all fun current => current < highwater.sequence)
    (.corruption path offset "SegmentRemoved high-water does not advance durable state")
  return highwaters.insert highwater.streamId highwater.sequence

/-- The footer a SegmentSealed frame describes. -/
def SegmentSealedBody.footer (body : SegmentSealedBody) : SegmentFooter where
  segmentId := body.segmentId
  segmentBytes := body.segmentBytes
  epochCount := body.epochCount
  segmentDigest := body.segmentDigest

/-- The frame that announces a footer. -/
def SegmentFooter.sealedBody (footer : SegmentFooter) : SegmentSealedBody where
  segmentId := footer.segmentId
  segmentBytes := footer.segmentBytes
  epochCount := footer.epochCount
  segmentDigest := footer.segmentDigest

/-- Applies one frame to the control state. -/
def applyFrame (path : Artifact) (offset : Nat) (control : Control) :
    ManifestBody → Except Error Control
  | .release release => .ok { control with releases := control.releases ++ [release] }
  | .segmentSealed body => do
    ensure (!control.removedSegments.contains body.segmentId)
      (.corruption path offset "SegmentSealed follows SegmentRemoved for the same segment")
    match control.liveSegments[body.segmentId]? with
    | some segment =>
      ensure segment.lifecycle.isActive
        (.corruption path offset "duplicate or contradictory SegmentSealed transition")
      return { control with
        liveSegments := control.liveSegments.insert body.segmentId
          { segment with lifecycle := .sealed body.footer } }
    | none =>
      return { control with
        liveSegments := control.liveSegments.insert body.segmentId
          ⟨.sealed body.footer, none, none⟩ }
  | .segmentRemoved body => do
    let segment ← orError
      (.corruption path offset "SegmentRemoved references a segment that is not manifest-live")
      control.liveSegments[body.segmentId]?
    ensure (!segment.lifecycle.isActive)
      (.corruption path offset "SegmentRemoved references an active segment")
    let streamHighwaters ← tryFold (advanceHighwater path offset) control.streamHighwaters
      body.highwaters
    ensure (!control.removedSegments.contains body.segmentId)
      (.corruption path offset "duplicate SegmentRemoved transition")
    return { control with
      liveSegments := control.liveSegments.erase body.segmentId
      removedSegments := control.removedSegments.insert body.segmentId body
      streamHighwaters := streamHighwaters }

/-- The control state of a checkpoint. -/
def Checkpoint.control (checkpoint : Checkpoint) : Control where
  liveSegments := checkpoint.segments.map fun _ segment =>
    ⟨segment.lifecycle, some segment.recordCount, some segment.releases⟩
  removedSegments := ∅
  releases := []
  streamHighwaters := checkpoint.streamHighwaters

section

variable [Hasher]

/-! ### Recovery of the control state -/

/-- Takes one decoded frame into account: a frame at or below the fence is skipped. -/
def takeFrame (lastAppliedSeq offset : Nat) (walk : LogWalk) (frame : ManifestFrame) :
    Except Error LogWalk :=
  if frame.manifestSeq ≤ lastAppliedSeq then
    .ok { walk with framesScanned := saturatingAdd walk.framesScanned 1 }
  else do
    let expected ← orError (.corruption manifestPath offset "manifest sequence overflow")
      (checkedAdd walk.lastSeq 1)
    let manifestSeq := frame.manifestSeq
    ensure (manifestSeq = expected) (.corruption manifestPath (offset + 8)
      s!"manifest suffix sequence {manifestSeq}, expected {expected}")
    let control ← applyFrame manifestPath offset walk.control frame.body
    return ⟨manifestSeq, saturatingAdd walk.framesScanned 1, control⟩

/-- The physical sequence of the frame after one that ends at an offset. -/
def nextPhysicalSeq (offset fileLen physicalSeq : Nat) : Except Error Nat :=
  if offset < fileLen then
    orError (.corruption manifestPath offset "manifest physical sequence overflow")
      (checkedAdd physicalSeq 1)
  else .ok physicalSeq

/-- Walks the frames of the log. The first argument bounds the steps: every frame takes some bytes
of the file. -/
def scanFrames (bytes : Bytes) (lastAppliedSeq : Nat) :
    Nat → Nat → Nat → LogWalk → Except Error LogScan
  | 0, _, _, walk => .ok ⟨walk, none⟩
  | fuel + 1, offset, physicalSeq, walk =>
    if bytes.length ≤ offset then .ok ⟨walk, none⟩
    else if bytes.length - offset < manifestFrameHeaderLen then .ok ⟨walk, some offset⟩
    else do
      let header ← malformed manifestPath offset
        (ManifestFrameHeader.decode (slice bytes offset manifestFrameHeaderLen))
      let manifestSeq := header.manifestSeq
      ensure (manifestSeq = physicalSeq) (.corruption manifestPath (offset + 8)
        s!"manifest sequence {manifestSeq}, expected {physicalSeq}")
      let frameLen ← orError
        (.corruption manifestPath offset "manifest frame length overflow")
        (checkedAdd manifestFrameHeaderLen header.bodyLen)
      let frameEnd ← orError (.corruption manifestPath offset "manifest frame end overflow")
        (checkedAdd offset frameLen)
      if bytes.length < frameEnd then .ok ⟨walk, some offset⟩ else do
        let frame ← malformed manifestPath offset
          (ManifestFrame.decode header (slice bytes (offset + manifestFrameHeaderLen) header.bodyLen))
        let walked ← takeFrame lastAppliedSeq offset walk frame
        let nextSeq ← nextPhysicalSeq frameEnd bytes.length physicalSeq
        scanFrames bytes lastAppliedSeq fuel frameEnd nextSeq walked

/-- Cuts an incomplete tail of the log. -/
def truncateTail (inode : Nat) : Option Nat → FsIo Unit
  | none => result ()
  | some length => do
    setLen inode length (.io "repair incomplete manifest tail" manifestPath .unknown)
    syncData inode (.io "repair incomplete manifest tail" manifestPath .unknown)

/-- The header of the log, checked against the root and the checkpoint. -/
def scanLogHeader (rootId : RootId) (lastAppliedSeq : Nat) (headerBytes : Bytes) :
    Except Error ManifestLogHeader := do
  let header ← malformed manifestPath 0 (ManifestLogHeader.decode headerBytes)
  ensure (header.rootId = rootId)
    (.corruption manifestPath 8 "manifest log root ID does not match ROOT")
  ensure (header.baseSeq ≠ 0)
    (.corruption manifestPath 24 "manifest log base sequence must be nonzero")
  ensure (!(lastAppliedSeq < wordMax && lastAppliedSeq + 1 < header.baseSeq))
    (.corruption manifestPath 24 "manifest log base creates a sequence gap after checkpoint")
  return header

/-- The checkpoint, checked against the root. -/
def recoverCheckpoint (rootId : RootId) (bytes : Bytes) : Except Error Checkpoint := do
  let checkpoint ← malformed checkpointPath 0 (Checkpoint.decode bytes)
  ensure (checkpoint.rootId = rootId)
    (.corruption checkpointPath 8 "checkpoint root ID does not match ROOT")
  return checkpoint

/-- Reads the control state of a root. -/
def recover (rootId : RootId) : FsIo ControlRecovery := do
  let checkpointBytes ← readCompleteFile .checkpoint
  let checkpoint ← ofExcept (recoverCheckpoint rootId checkpointBytes)
  let fs ← read
  let file ← ofOption (.io "open manifest log" manifestPath .notApplicable)
    (rootDirectory.lookup .manifestLog fs)
  observe (.io "open manifest log" manifestPath .notApplicable)
  observe (.io "read manifest log metadata" manifestPath .notApplicable)
  let bytes := fs.content file
  require (manifestLogHeaderLen ≤ bytes.length)
    (.corruption manifestPath 0 "manifest log is shorter than its authoritative header")
  observe (.io "read file" manifestPath .notApplicable)
  let header ← ofExcept (scanLogHeader rootId checkpoint.lastAppliedSeq
    (slice bytes 0 manifestLogHeaderLen))
  let scan ← ofExcept (scanFrames bytes checkpoint.lastAppliedSeq bytes.length
    manifestLogHeaderLen header.baseSeq ⟨checkpoint.lastAppliedSeq, 0, checkpoint.control⟩)
  truncateTail file scan.repair
  observe (.io "seek manifest log" manifestPath .notApplicable)
  return {
    framesScanned := scan.walk.framesScanned
    repairedTail := scan.repair.isSome
    checkpointNextSegmentId := checkpoint.nextSegmentId
    checkpointStreamHighwaters := checkpoint.streamHighwaters
    control := scan.walk.control
    manifest := {
      file := file
      checkpointLen := checkpointBytes.length
      logLen := scan.repair.getD bytes.length
      lastSeq := scan.walk.lastSeq } }

/-- The manifest of an empty root. -/
def createInitial (rootId : RootId) : FsIo Unit := do
  let checkpoint : Checkpoint := {
    rootId := rootId
    lastAppliedSeq := 0
    nextSegmentId := 0
    streamHighwaters := ∅
    segments := ∅ }
  let checkpointBytes ← ofExcept (mapError
    (fun message => .corruption checkpointPath 0 s!"cannot encode initial checkpoint: {message}")
    checkpoint.encode)
  atomicReplace .checkpointTemporary .checkpoint checkpointBytes .unknown
  atomicReplace .manifestLogTemporary .manifestLog (ManifestLogHeader.encode ⟨rootId, 1⟩) .unknown

/-! ### The open manifest -/

/-- Encodes a group of frames from a sequence on. Returns the last sequence too. -/
def encodeFrames : Nat → List ManifestBody → Except Error (List Bytes × Nat)
  | next, [] => .ok ([], next)
  | next, [body] => do
    let frame ← malformed manifestPath 0 (ManifestFrame.encodeParts next body)
    return ([frame], next)
  | next, body :: more :: rest => do
    let frame ← malformed manifestPath 0 (ManifestFrame.encodeParts next body)
    let following ← orError .manifestSequenceExhausted (checkedAdd next 1)
    let (frames, last) ← encodeFrames following (more :: rest)
    return (frame :: frames, last)

namespace Manifest

/-- The bytes of the log. -/
def fileLen (manifest : Manifest) : Nat := manifest.logLen

/-- The bytes of checkpoint and log. -/
def controlFileLen (manifest : Manifest) : Except Error Nat :=
  orError (.corruption manifestPath 0 "control file byte accounting overflow")
    (checkedAdd manifest.checkpointLen manifest.logLen)

/-- Adds the length of one frame. -/
def addFrameLen (logLen total : Nat) (frame : Bytes) : Except Error Nat := do
  let length ← orError
    (.corruption manifestPath logLen "manifest frame length does not fit u64") (toWord frame.length)
  orError (.corruption manifestPath logLen "manifest log length overflow")
    (checkedAdd total length)

/-- Adds a group of frames to the log. -/
def appendGroup (manifest : Manifest) (bodies : List ManifestBody) (outcome : DurabilityOutcome) :
    FsIo Manifest :=
  if bodies = [] then result manifest else do
    let first ← ofOption .manifestSequenceExhausted (checkedAdd manifest.lastSeq 1)
    let (frames, last) ← ofExcept (encodeFrames first bodies)
    let appendedBytes ← ofExcept (tryFold (addFrameLen manifest.logLen) 0 frames)
    let logLen ← ofOption (.corruption manifestPath manifest.logLen "manifest log length overflow")
      (checkedAdd manifest.logLen appendedBytes)
    observe (.io "seek manifest log" manifestPath outcome)
    writeAll manifest.file frames.flatten (.io "write manifest frame" manifestPath outcome)
    syncData manifest.file (.io "sync manifest log" manifestPath outcome)
    return { manifest with logLen := logLen, lastSeq := last }

/-- Replaces checkpoint and log by a checkpoint of the current state and an empty log. -/
def compact (manifest : Manifest) (checkpoint : Checkpoint) : FsIo Manifest := do
  require (checkpoint.lastAppliedSeq = manifest.lastSeq)
    (.corruption checkpointPath 24 "checkpoint sequence does not match manifest state")
  let checkpointBytes ← ofExcept (malformed checkpointPath 0 checkpoint.encode)
  let checkpointLen ← ofOption (.corruption checkpointPath 0 "checkpoint length does not fit u64")
    (toWord checkpointBytes.length)
  atomicReplace .checkpointTemporary .checkpoint checkpointBytes .unknown
  let baseSeq := saturatingAdd manifest.lastSeq 1
  atomicReplace .manifestLogTemporary .manifestLog
    (ManifestLogHeader.encode ⟨checkpoint.rootId, baseSeq⟩) .unknown
  let fs ← read
  let file ← ofOption (.io "reopen compacted manifest log" manifestPath .unknown)
    (rootDirectory.lookup .manifestLog fs)
  observe (.io "reopen compacted manifest log" manifestPath .unknown)
  observe (.io "seek compacted manifest log" manifestPath .unknown)
  return { manifest with file, checkpointLen, logLen := manifestLogHeaderLen }

end Manifest

end

end Camus
