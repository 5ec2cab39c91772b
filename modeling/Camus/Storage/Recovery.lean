/-
**Rebuilding the indexes of a root.**

The pure part of opening a root: `rebuildIndexes` takes the scanned segments and the control state,
applies the checkpoint's releases, replays live and removed segments in the order of their
identities (every stream's sequences must be contiguous), applies the releases of the log and
collects the pending records.
-/

import Camus.Storage.State

namespace Camus

open Codec Checked Disk FaultIo Result Std

/-! ### Rebuilding the indexes -/

/-- The segments of a root by identity. -/
abbrev SegmentMap := ExtTreeMap Nat Segment

/-- The streams of a root by identity. -/
abbrev StreamMap := ExtTreeMap StreamId StreamState

/-- The state of a stream in a map. -/
def StreamMap.entry (streams : StreamMap) (streamId : StreamId) : StreamState :=
  streams[streamId]?.getD .default

/-- The streams a checkpoint knows. -/
def checkpointStreams (highwaters : Highwaters) : StreamMap :=
  highwaters.map fun _ highwater =>
    { StreamState.default with highwater := some highwater, persistedHighwater := some highwater }

/-- Sets the released flags of the first records. -/
def setFlags (records : List StoredRecord) (flags : List Bool) : List StoredRecord :=
  (records.zip flags).map (fun (record, released) => { record with released := released }) ++
    records.drop flags.length

/-- The records the checkpoint describes of a segment. -/
def baselineOf (controlSegment : Option ControlSegment) : Nat :=
  (controlSegment.bind (·.checkpointRecordCount)).getD 0

/-- Applies the checkpoint's releases to a segment. -/
def applyCheckpointReleases (segment : Segment) (baseline : Nat) :
    Option ReleaseEncoding → Except Error Segment
  | none => .ok segment
  | some encoding => do
    let flags ← mapError
      (fun message => .corruption segment.path 0 s!"invalid checkpoint release state: {message}")
      (encoding.toFlags baseline)
    return { segment with records := setFlags segment.records flags }

/-- Checks the checkpoint's view of a segment against its records and applies its releases. -/
def applyBaseline (controlSegment : Option ControlSegment) (segment : Segment) :
    Except Error Segment := do
  let baseline := baselineOf controlSegment
  let recordCount ← orError
    (.corruption segment.path 0 "segment record count does not fit u64")
    (toWord segment.records.length)
  ensure (baseline ≤ recordCount && (baseline = 0 || segment.hasCheckpointBoundary baseline))
    (.corruption segment.path 0 "checkpoint record boundary does not match an epoch boundary")
  ensure (!controlSegment.any fun entry => !entry.lifecycle.isActive &&
      entry.checkpointRecordCount.isSome && baseline ≠ recordCount)
    (.corruption segment.path 0
      "checkpoint-sealed segment gained records after its checkpoint boundary")
  applyCheckpointReleases segment baseline (controlSegment.bind (·.checkpointReleases))

/-- The state of the replay of segments. `locations` holds every identity seen so far. -/
structure Replay where
  streams : StreamMap
  locations : ExtTreeMap Identity RecordPointer
  baselineLast : Highwaters

/-- The sequence that continues a stream. -/
def expectedSequence (path : Artifact) (offset : Nat) : Option Nat → Except Error Nat
  | some value => orError
    (.corruption path offset "record follows exhausted stream high-water") (checkedAdd value 1)
  | none => .ok 0

/-- A record after the checkpoint must continue its stream. -/
def advanceRecoveredSequence (path : Artifact) (record : StoredRecord) (streams : StreamMap) :
    Except Error StreamMap := do
  let stream := streams.entry record.streamId
  let expected ← expectedSequence path record.descriptorOffset stream.highwater
  let sequence := record.sequence
  ensure (sequence = expected) (.corruption path record.descriptorOffset
    s!"stream sequence {sequence}, expected {expected}")
  return streams.insert record.streamId { stream with highwater := some sequence }

/-- A record of the checkpoint must not exceed what the checkpoint says of its stream. -/
def checkBaselineRecord (path : Artifact) (record : StoredRecord) (replay : Replay) :
    Except Error Replay := do
  let highwater ← orError (.corruption path record.descriptorOffset
    "checkpoint-baseline record belongs to an unknown stream")
    (replay.streams[record.streamId]?.bind (·.highwater))
  ensure (record.sequence ≤ highwater) (.corruption path record.descriptorOffset
    "checkpoint-baseline record exceeds stream high-water")
  ensure
    (replay.baselineLast[record.streamId]?.all fun previous => previous < record.sequence)
    (.corruption path record.descriptorOffset
      "checkpoint-baseline stream sequences are not increasing")
  return { replay with
    baselineLast := replay.baselineLast.insert record.streamId record.sequence }

/-- A record continues the replay: as one of the checkpoint or as one after it. -/
def checkRecord (path : Artifact) (inBaseline : Bool) (record : StoredRecord) (replay : Replay) :
    Except Error Replay :=
  if inBaseline then checkBaselineRecord path record replay else do
    let streams ← advanceRecoveredSequence path record replay.streams
    return { replay with streams := streams }

/-- Replays one record. -/
def replayRecord (segmentId : Nat) (path : Artifact) (baseline : Nat) (replay : Replay)
    (entry : StoredRecord × Nat) : Except Error Replay := do
  let (record, ordinal) := entry
  ensure (!replay.locations.contains (record.streamId, record.sequence))
    (.corruption path record.descriptorOffset "duplicate stream sequence")
  let located := { replay with
    locations := replay.locations.insert (record.streamId, record.sequence) ⟨segmentId, ordinal⟩ }
  let checked ← checkRecord path (ordinal < baseline) record located
  let stream := checked.streams.entry record.streamId
  return { checked with
    streams := checked.streams.insert record.streamId
      { stream with lastSegmentId := some segmentId } }

/-- Replays one high-water of a removed segment. -/
def replayHighwater (streams : StreamMap) (highwater : StreamHighwater) : Except Error StreamMap := do
  let stream := streams.entry highwater.streamId
  let expected := (stream.highwater.map fun value => saturatingAdd value 1).getD 0
  ensure (stream.highwater ≠ some wordMax && expected ≤ highwater.sequence)
    (.corruption manifestPath 0 "removed-segment high-water does not advance recovered sequence")
  return streams.insert highwater.streamId { stream with
    highwater := some highwater.sequence
    persistedHighwater := some highwater.sequence }

/-- Replays the records of a live segment. -/
def replayLive (controlSegments : ExtTreeMap Nat ControlSegment) (segmentId : Nat)
    (replay : Replay) : Option Segment → Except Error Replay
  | none => .ok replay
  | some segment =>
    tryFold (replayRecord segmentId segment.path (baselineOf controlSegments[segmentId]?))
      replay segment.records.zipIdx

/-- Replays the high-waters of a removed segment. -/
def replayRemoved (replay : Replay) : Option SegmentRemovedBody → Except Error Replay
  | none => .ok replay
  | some removed => do
    let streams ← tryFold replayHighwater replay.streams removed.highwaters
    return { replay with streams := streams }

/-- Replays one segment identity. -/
def replaySegment (segments : SegmentMap) (controlSegments : ExtTreeMap Nat ControlSegment)
    (removedSegments : ExtTreeMap Nat SegmentRemovedBody) (replay : Replay) (segmentId : Nat) :
    Except Error Replay := do
  let live ← replayLive controlSegments segmentId replay segments[segmentId]?
  replayRemoved live removedSegments[segmentId]?

/-- Marks the record at a place as released. -/
def markReleased (segments : SegmentMap) (pointer : RecordPointer) : Except Error SegmentMap := do
  let segment ← orError (.panicked "recovered record segment exists")
    segments[pointer.segmentId]?
  ensure (pointer.ordinal < segment.records.length) (.panicked "index out of bounds")
  return segments.insert pointer.segmentId { segment with
    records := segment.records.modify pointer.ordinal fun record =>
      { record with released := true } }

/-- Applies a release to one sequence, if a live segment holds it. -/
def releaseSequence (locations : ExtTreeMap Identity RecordPointer) (streamId : StreamId)
    (segments : SegmentMap) (sequence : Nat) : Except Error SegmentMap :=
  match locations[((streamId, sequence) : Identity)]? with
  | some pointer => markReleased segments pointer
  | none => .ok segments

/-- Applies one range of a release. -/
def releaseRange (locations : ExtTreeMap Identity RecordPointer) (streamId : StreamId)
    (highwater : Nat) (segments : SegmentMap) (range : SequenceRange) :
    Except Error SegmentMap := do
  let finish ← malformed manifestPath 0 range.finish
  ensure (finish ≤ highwater)
    (.corruption manifestPath 0 "Release references an unknown future record")
  tryFold (releaseSequence locations streamId) segments
    (List.range' range.start (finish + 1 - range.start))

/-- Applies one release of the log. -/
def applyRelease (streams : StreamMap) (locations : ExtTreeMap Identity RecordPointer)
    (segments : SegmentMap) (release : ReleaseBody) : Except Error SegmentMap := do
  let highwater ← orError
    (.corruption manifestPath 0 "Release references a stream with no durable sequence")
    (streams[release.streamId]?.bind (·.highwater))
  tryFold (releaseRange locations release.streamId highwater) segments release.ranges

/-- Adds an unreleased record to the pending ones of its stream. -/
def addPending (path : Artifact) (pointer : RecordPointer) (record : StoredRecord)
    (stream : StreamState) : Except Error StreamState :=
  if record.released then .ok stream else do
    let bytes ← orError
      (.corruption path record.payloadOffset "pending payload byte count overflow")
      (checkedAdd stream.pendingPayloadBytes record.payloadLen)
    return { stream with
      pending := stream.pending.insert record.sequence pointer
      pendingPayloadBytes := bytes }

/-- Indexes one record. -/
def indexRecord (segmentId : Nat) (path : Artifact) (streams : StreamMap)
    (entry : StoredRecord × Nat) : Except Error StreamMap := do
  let (record, ordinal) := entry
  let stream := streams.entry record.streamId
  ensure (!stream.highwater.all fun highwater => highwater < record.sequence)
    (.corruption path record.descriptorOffset "record exceeds recovered stream high-water")
  let indexed ← addPending path ⟨segmentId, ordinal⟩ record stream
  return streams.insert record.streamId indexed

/-- Indexes the records of a segment. -/
def indexSegment (streams : StreamMap) (entry : Nat × Segment) : Except Error StreamMap :=
  tryFold (indexRecord entry.1 entry.2.path) streams entry.2.records.zipIdx

/-- Takes one durable high-water of the manifest into account. -/
def applyDurableHighwater (streams : StreamMap) (entry : StreamId × Nat) : Except Error StreamMap := do
  let (streamId, persisted) := entry
  let stream := streams.entry streamId
  ensure (!stream.highwater.all fun current => current < persisted)
    (.corruption manifestPath 0 "manifest high-water exceeds recovered sequence evidence")
  return streams.insert streamId
    (if stream.persistedHighwater.all fun current => current < persisted then
      { stream with persistedHighwater := some persisted } else stream)

/-- The identities of live and removed segments, in order. -/
def allSegmentIds (segments : SegmentMap)
    (removedSegments : ExtTreeMap Nat SegmentRemovedBody) : List Nat :=
  (ExtTreeSet.ofList (segments.keys ++ removedSegments.keys)).toList

/-- Applies the checkpoint to every segment. -/
def applyBaselines (controlSegments : ExtTreeMap Nat ControlSegment) (segments : SegmentMap) :
    Except Error SegmentMap :=
  tryFold
    (fun found (entry : Nat × Segment) => do
      let segment ← applyBaseline controlSegments[entry.1]? entry.2
      return found.insert entry.1 segment)
    segments segments.toList

/-- **Rebuilds the indexes** of a root from its segments and its control state. -/
def rebuildIndexes (segments : SegmentMap)
    (checkpointStreamHighwaters : Highwaters) (control : Control) :
    Except Error (SegmentMap × StreamMap) := do
  let segments ← applyBaselines control.liveSegments segments
  let replay ← tryFold
    (replaySegment segments control.liveSegments control.removedSegments)
    ⟨checkpointStreams checkpointStreamHighwaters, ∅, ∅⟩
    (allSegmentIds segments control.removedSegments)
  let released ← tryFold (applyRelease replay.streams replay.locations) segments
    control.releases
  let indexed ← tryFold indexSegment replay.streams released.toList
  let streams ← tryFold applyDurableHighwater indexed control.streamHighwaters.toList
  return (released, streams)

end Camus
