/-
**Admission to a bounded root.**

`Storage.checkAppendCapacity` decides whether a group of appends fits a bounded root together with
the reserve the root needs after it; `maxBoundedReleaseGroupBytes` bounds the release groups the
reactor forms on a bounded root.
-/

import Camus.Storage.Handoff

namespace Camus

open Codec Checked Disk FaultIo Result

/-- The answer of an admission check. -/
inductive CapacityCheck where
  | admitted
  | wait (neededBytes availableBytes : Nat)
  | exceeds (neededBytes totalBytes : Nat)
deriving Repr, DecidableEq

/-- Adds the bytes of one record to those of an epoch. -/
def addRecordBytes (total : Nat) (record : Record) : Except Error Nat := do
  let metadata ← orError (.invalidConfig "metadata length does not fit u64")
    (toWord record.metadata.length)
  let payload ← orError (.invalidConfig "payload length does not fit u64")
    (toWord record.payload.length)
  orError (.invalidConfig "encoded epoch length overflow") do
    let withDescriptor ← checkedAdd total recordDescriptorLen
    let withMetadata ← checkedAdd withDescriptor metadata
    checkedAdd withMetadata payload

/-- The bytes of the epoch of some records. -/
def encodedEpochBytes (records : List Record) : Except Error Nat := do
  ensure (records ≠ []) .emptyAppend
  tryFold addRecordBytes (epochHeaderLen + epochCommitLen) records

/-- The records and bytes of a group of appends. -/
structure GroupDemand where
  recordCounts : Highwaters
  totalRecords : Nat
  groupBytes : Nat

/-- Adds one unit to the demand of a group. -/
def GroupDemand.add (demand : GroupDemand) (unit : AppendUnit) : Except Error GroupDemand := do
  let recordCount ← orError (.invalidConfig "append record count does not fit u64")
    (toWord unit.records.length)
  let totalRecords ← orError (.invalidConfig "append record count overflow")
    (checkedAdd demand.totalRecords recordCount)
  let streamRecords ← orError (.invalidConfig "append stream record count overflow")
    (checkedAdd (demand.recordCounts[unit.streamId]?.getD 0) recordCount)
  let epochBytes ← encodedEpochBytes unit.records
  let groupBytes ← orError (.invalidConfig "append group byte count overflow")
    (checkedAdd demand.groupBytes epochBytes)
  return ⟨demand.recordCounts.insert unit.streamId streamRecords, totalRecords, groupBytes⟩

/-- Adds the largest checkpoint entry of a segment with some records. -/
def addSegmentReserve (checkpoint records : Nat) : Option Nat := do
  let fixed ← checkedAdd checkpoint 72
  let bitmap ← checkedMul (divCeil records 64) 8
  checkedAdd fixed bitmap

namespace Storage

/-- The streams of a group the root does not know yet. -/
def unknownStreams (storage : Storage) (demand : GroupDemand) : Nat :=
  demand.recordCounts.keys.countP fun streamId => !storage.streams.contains streamId

/-- The streams of a group that have no record in a segment yet. -/
def addedStreams (storage : Storage) (demand : GroupDemand) (segmentId : Nat) : Nat :=
  demand.recordCounts.keys.countP fun streamId =>
    storage.streams[streamId]?.bind (·.lastSegmentId) ≠ some segmentId

/-- Adds one segment to the projected reserve. -/
def projectSegment (storage : Storage) (demand : GroupDemand) (targetExisting : Option Nat)
    (reserve : Nat × Nat) (entry : Nat × Segment) : Except Error (Nat × Nat) := do
  let isTarget := targetExisting = some entry.1
  let existing ← orError (.invalidConfig "record count does not fit u64")
    (toWord entry.2.records.length)
  let records ← orError (.invalidConfig "record count overflow")
    (checkedAdd existing (if isTarget then demand.totalRecords else 0))
  let checkpoint ← orError (.invalidConfig "checkpoint reserve overflow")
    (addSegmentReserve reserve.1 records)
  let streams ← orError (.invalidConfig "segment stream count overflow")
    (checkedAdd entry.2.uniqueStreamCount
      (if isTarget then storage.addedStreams demand entry.1 else 0))
  return (checkpoint, max reserve.2 streams)

/-- Adds a new segment to the projected reserve. -/
def projectCreation (demand : GroupDemand) (createsSegment : Bool) (reserve : Nat × Nat) :
    Except Error (Nat × Nat) :=
  if createsSegment then do
    let checkpoint ← orError (.invalidConfig "checkpoint reserve overflow")
      (addSegmentReserve reserve.1 demand.totalRecords)
    let streams ← orError (.invalidConfig "stream count does not fit u64")
      (toWord demand.recordCounts.size)
    return (checkpoint, max reserve.2 streams)
  else .ok reserve

/-- The reserve of the root after an append. -/
def projectedHeadroom (storage : Storage) (demand : GroupDemand) (targetExisting : Option Nat)
    (createsSegment : Bool) : Except Error Nat := do
  let streamCount ← orError (.invalidConfig "stream count overflow")
    (checkedAdd storage.streams.size (storage.unknownStreams demand))
  let fixed ← orError (.invalidConfig "checkpoint reserve overflow")
    (checkpointReserve streamCount)
  let existing ← tryFold (storage.projectSegment demand targetExisting) (fixed, 0)
    storage.segments.toList
  let (checkpoint, largestSegmentStreams) ← projectCreation demand createsSegment existing
  let manifest ← largestManifestGroup storage.config largestSegmentStreams
  orError (.invalidConfig "maintenance headroom overflow") do
    let reserved ← checkedAdd checkpoint manifest
    checkedAdd reserved segmentFooterLen

/-- The weight of a root that holds nothing but a group of appends. -/
def minimumRootWeightAfterAppend (storage : Storage) (demand : GroupDemand) : Except Error Nat := do
  let streamCount ← orError (.invalidConfig "stream count overflow")
    (checkedAdd storage.streams.size (storage.unknownStreams demand))
  let checkpointWithoutSegment ← orError
    (.invalidConfig "minimum checkpoint size overflow") (checkpointReserve streamCount)
  let actual ← orError (.invalidConfig "minimum root size overflow") do
    let withCheckpoint ← checkedAdd rootSuperblockLen checkpointWithoutSegment
    let withLog ← checkedAdd withCheckpoint manifestLogHeaderLen
    let withHeader ← checkedAdd withLog segmentHeaderLen
    checkedAdd withHeader demand.groupBytes
  let checkpointReserve ← orError
    (.invalidConfig "minimum checkpoint reserve overflow")
    (addSegmentReserve checkpointWithoutSegment demand.totalRecords)
  let segmentStreams ← orError (.invalidConfig "stream count does not fit u64")
    (toWord demand.recordCounts.size)
  orError (.invalidConfig "minimum root capacity overflow") do
    let withReserve ← checkedAdd actual checkpointReserve
    let manifest ← (largestManifestGroup storage.config segmentStreams).toOption
    let withManifest ← checkedAdd withReserve manifest
    checkedAdd withManifest segmentFooterLen

/-- The group fits the active segment. -/
def activeFits (storage : Storage) (demand : GroupDemand) (clock : Clock) : Except Error Bool :=
  match storage.activeSegment with
  | none => .ok false
  | some active => do
    let expired ← storage.activeExpired clock
    if expired then .ok false else do
      let room ← storage.segmentEpochCapacity active
      return demand.groupBytes ≤ room

/-- The bytes of the root after an append. -/
def projectedActual (storage : Storage) (demand : GroupDemand) (createsSegment sealsSegment : Bool) :
    Except Error Nat :=
  orError (.invalidConfig "append capacity projection overflow") do
    let withGroup ← checkedAdd storage.actualFileBytes demand.groupBytes
    let withHeader ← checkedAdd withGroup (if createsSegment then segmentHeaderLen else 0)
    let withFooter ← checkedAdd withHeader (if sealsSegment then segmentFooterLen else 0)
    checkedAdd withFooter (if sealsSegment then 80 else 0)

/-- What a group of appends that does not fit now is answered. -/
def refuseAppend (storage : Storage) (demand : GroupDemand) (totalBytes projectedWeight : Nat) :
    Except Error CapacityCheck := do
  let headroom ← storage.maintenanceHeadroomBytes
  let currentWeight ← orError (.invalidConfig "capacity accounting overflow")
    (checkedAdd storage.actualFileBytes headroom)
  let minimum ← storage.minimumRootWeightAfterAppend demand
  if totalBytes < minimum then return .exceeds minimum totalBytes
  else return .wait (projectedWeight - currentWeight) (totalBytes - currentWeight)

/-- **A group of appends fits the root**, with the reserve the root needs after it. -/
def checkAppendCapacity (storage : Storage) (units : List AppendUnit) (clock : Clock) :
    Except Error CapacityCheck :=
  match storage.config.capacity with
  | .unbounded => .ok .admitted
  | .bounded totalBytes _ => do
    let demand ← tryFold GroupDemand.add ⟨∅, 0, 0⟩ units
    let fits ← storage.activeFits demand clock
    let targetExisting := if fits then storage.activeSegment else none
    let createsSegment := targetExisting.isNone
    let sealsSegment := storage.activeSegment.isSome && createsSegment
    let actual ← storage.projectedActual demand createsSegment sealsSegment
    let headroom ← storage.projectedHeadroom demand targetExisting createsSegment
    let projectedWeight ← orError (.invalidConfig "append capacity projection overflow")
      (checkedAdd actual headroom)
    if projectedWeight ≤ totalBytes then return .admitted
    else storage.refuseAppend demand totalBytes projectedWeight

end Storage

/-- There is a segment that an automatic reclamation removes. -/
def Storage.hasAutomaticReclaimWork (storage : Storage) : Except Error Bool :=
  if storage.reclaimableSegments ≠ 0 then .ok true
  else match storage.activeSegment with
    | none => .ok false
    | some active => do
      let segment ← storage.segmentAt active
      return segment.unreleasedRecords = 0

/-- The bound of a release request's frame. -/
def releaseEncodedBound (unit : ReleaseUnit) : Nat := 72 + 16 * unit.ids.length

/-- The bytes of a release group on a bounded root. -/
def maxBoundedReleaseGroupBytes (config : Config) : Nat :=
  min config.maxCommitBytes (72 + config.maxReleaseRecords * 16)

end Camus
