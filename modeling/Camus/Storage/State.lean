/-
**The state of an open root.**

`Storage` is what the storage thread keeps in memory: the open manifest, the segments with their
records, the index of pending records by stream and the byte accounting. `World` puts it next to the
filesystem it was opened on.

The reserve a bounded root keeps (`Storage.maintenanceHeadroomBytes`) and the test that asks for a
compaction (`manifestCompactionRequired`) are here too, since recovery and the operations use both.
-/

import Camus.Storage.Manifest

namespace Camus

open Codec Checked Disk FaultIo Result Std

/-! ### Data -/

/-- The place of a record: its segment and its ordinal there. -/
structure RecordPointer where
  segmentId : Nat
  ordinal : Nat
deriving DecidableEq

/-- What a root knows of one stream. -/
structure StreamState where
  highwater : Option Nat
  persistedHighwater : Option Nat
  lastSegmentId : Option Nat
  pending : ExtTreeMap Nat RecordPointer
  pendingPayloadBytes : Nat

/-- A stream nothing is known of. -/
def StreamState.default : StreamState := ⟨none, none, none, ∅, 0⟩

/-- One request to append. -/
structure AppendUnit where
  streamId : StreamId
  records : List Record
deriving DecidableEq

/-- One request to release. -/
structure ReleaseUnit where
  streamId : StreamId
  ids : List RecordId
deriving DecidableEq

/-- Who asked for a reclamation. -/
inductive ReclaimKind where
  | automatic
  | explicit
deriving Repr, DecidableEq

/-- Why the active segment is sealed. -/
inductive SealReason where
  | size
  | age
  | reclaim
deriving Repr, DecidableEq

/-- What a reclamation removed. -/
structure ReclaimReport where
  segments : Nat
  bytes : Nat
deriving Repr, DecidableEq

/-- Counters of commits. -/
structure CommitStats where
  appendGroups : Nat := 0
  appendUnits : Nat := 0
  appendRecords : Nat := 0
  appendEncodedBytes : Nat := 0
  maxAppendUnits : Nat := 0
  maxAppendEncodedBytes : Nat := 0
  releaseGroups : Nat := 0
  releaseUnits : Nat := 0
  releaseRecords : Nat := 0
  releaseEncodedBytes : Nat := 0
  maxReleaseUnits : Nat := 0
  maxReleaseEncodedBytes : Nat := 0
deriving Repr, DecidableEq

/-- Counters of maintenance. -/
structure MaintenanceStats where
  automaticReclaimPasses : Nat := 0
  explicitReclaimPasses : Nat := 0
  sizeRollovers : Nat := 0
  ageRollovers : Nat := 0
  reclaimRollovers : Nat := 0
  reclaimedSegments : Nat := 0
  reclaimedBytes : Nat := 0
  manifestCompactions : Nat := 0
deriving Repr, DecidableEq

/-- What one recovery did. -/
structure RecoveryStats where
  manifestFramesScanned : Nat := 0
  segmentsScanned : Nat := 0
  epochsScanned : Nat := 0
  recordsScanned : Nat := 0
  repairedActiveTails : Nat := 0
  repairedManifestTails : Nat := 0
  completedSegmentSeals : Nat := 0
  completedSegmentDeletions : Nat := 0
  removedTemporaryFiles : Nat := 0
deriving Repr, DecidableEq

/-- **An open root.** -/
structure Storage where
  config : Config
  rootId : RootId
  manifest : Manifest
  segments : ExtTreeMap Nat Segment
  activeSegment : Option Nat
  streams : ExtTreeMap StreamId StreamState
  nextSegmentId : Nat
  actualFileBytes : Nat
  durableStreams : Nat
  pendingRecords : Nat
  pendingPayloadBytes : Nat
  reclaimableSegments : Nat
  reclaimableBytes : Nat
  commits : CommitStats
  maintenance : MaintenanceStats
  recovery : RecoveryStats

/-- An open root and the filesystem it works on. -/
structure World where
  storage : Storage
  fs : Fs

/-- Programs of an open root. -/
abbrev StorageIo := FaultIo World Error

/-- Runs a program of the filesystem. -/
def onDisk {α : Type} (program : FsIo α) : StorageIo α :=
  focus World.fs (fun fs world => { world with fs := fs }) program

/-- The state in memory. -/
def getStorage : StorageIo Storage := do
  let world ← read
  return world.storage

/-- Changes the state in memory. -/
def modifyStorage (change : Storage → Storage) : StorageIo Unit :=
  update fun world => { world with storage := change world.storage }

/-! ### Lookups -/

namespace Storage

/-- The segment of an identity the caller knows to be live; the code indexes the map. -/
def segmentAt (storage : Storage) (segmentId : Nat) : Except Error Segment :=
  orError (.panicked "no entry found for key") storage.segments[segmentId]?

/-- The state of a stream. -/
def stream (storage : Storage) (streamId : StreamId) : StreamState :=
  storage.streams[streamId]?.getD .default

/-- The greatest sequence of a stream. -/
def streamHighwater (storage : Storage) (streamId : StreamId) : Option Nat :=
  (storage.stream streamId).highwater

/-- The bytes an epoch group may take in a segment. -/
def segmentEpochCapacity (storage : Storage) (segmentId : Nat) : Except Error Nat := do
  let segment ← storage.segmentAt segmentId
  return storage.config.segmentBytes - segment.fileLen - segmentFooterLen

/-- The active segment is older than the configuration allows, at a reading of the clock. -/
def activeExpired (storage : Storage) (clock : Clock) : Except Error Bool :=
  match storage.config.maxSegmentAge, storage.activeSegment with
  | some maxAge, some active => do
    let now ← unixMillis clock
    let age ← orError (.invalidConfig "segment age does not fit u64")
      (toWord maxAge.asMillis)
    let segment ← storage.segmentAt active
    return age ≤ now - segment.header.createdAtUnixMillis
  | _, _ => .ok false

/-! ### The reserve for maintenance -/

/-- The bytes of a checkpoint without segments. -/
def checkpointReserve (streamCount : Nat) : Option Nat := do
  let fixed ← checkedAdd checkpointHeaderLen 24
  let streams ← checkedMul streamCount 16
  checkedAdd fixed streams

/-- The largest group of frames one operation may add. -/
def largestManifestGroup (config : Config) (largestSegmentStreams : Nat) : Except Error Nat := do
  let releaseRecords ← orError (.invalidConfig "release bound does not fit u64")
    (toWord config.maxReleaseRecords)
  let releaseFrame ← orError (.invalidConfig "release frame reserve overflow")
    (maximalReleaseFrame releaseRecords)
  let highwaters ← orError (.invalidConfig "removal frame reserve overflow")
    (checkedMul largestSegmentStreams 16)
  let removalFrame ← orError (.invalidConfig "removal frame reserve overflow")
    (checkedAdd 64 highwaters)
  let removalGroup ← orError (.invalidConfig "removal group reserve overflow")
    (checkedMul removalFrame 4)
  return max (max releaseFrame 80) removalGroup

/-- Adds one segment to the checkpoint reserve and to the largest number of streams. -/
def addHeadroom (reserve : Nat × Nat) (segment : Segment) : Except Error (Nat × Nat) := do
  let records ← orError (.invalidConfig "record count does not fit u64")
    (toWord segment.records.length)
  let bitmapBytes ← orError (.invalidConfig "checkpoint bitmap reserve overflow")
    (checkedMul (divCeil records 64) 8)
  let checkpoint ← orError (.invalidConfig "checkpoint reserve overflow")
    (do checkedAdd (← checkedAdd reserve.1 72) bitmapBytes)
  let streams ← orError (.invalidConfig "segment stream count does not fit u64")
    (toWord segment.uniqueStreamCount)
  return (checkpoint, max reserve.2 streams)

/-- The bytes a root keeps free for its own maintenance. -/
def maintenanceHeadroomBytes (storage : Storage) : Except Error Nat := do
  let streamCount ← orError (.invalidConfig "stream count does not fit u64")
    (toWord storage.streams.size)
  let fixed ← orError (.invalidConfig "checkpoint reserve overflow")
    (checkpointReserve streamCount)
  let (checkpoint, largestSegmentStreams) ← tryFold addHeadroom (fixed, 0)
    (Maps.values storage.segments)
  let manifest ← largestManifestGroup storage.config largestSegmentStreams
  orError (.invalidConfig "maintenance headroom overflow") do
    let reserved ← checkedAdd checkpoint manifest
    checkedAdd reserved (if storage.activeSegment.isSome then segmentFooterLen else 0)

/-- A recovered root fits its configured capacity. -/
def validateCapacity (storage : Storage) : Except Error Unit :=
  match storage.config.capacity with
  | .unbounded => .ok ()
  | .bounded totalBytes _ => do
    let headroom ← storage.maintenanceHeadroomBytes
    let required ← orError (.invalidConfig "capacity accounting overflow")
      (checkedAdd storage.actualFileBytes headroom)
    ensure (required ≤ totalBytes) (.invalidConfig
      s!"recovered root requires {required} bytes including maintenance headroom, exceeding bounded capacity {totalBytes}")

/-! ### Byte accounting -/

/-- Replaces the bytes of a part of the root in the total. -/
def replaceActualFileBytes (previous current : Nat) (storage : Storage) : Except Error Storage := do
  let total ← orError
    (.corruption .root 0 "root byte accounting replacement overflow")
    (do checkedAdd (← checkedSub storage.actualFileBytes previous) current)
  return { storage with actualFileBytes := total }

/-- Takes bytes out of the total. -/
def subtractActualFileBytes (bytes : Nat) (storage : Storage) : Except Error Storage := do
  let total ← orError (.corruption .root 0 "root byte accounting underflow")
    (checkedSub storage.actualFileBytes bytes)
  return { storage with actualFileBytes := total }

end Storage

/-- Changes the state in memory unless the change is refused, which leaves it as it was. -/
def tryStorage (change : Storage → Except Error Storage) : StorageIo Unit := do
  let storage ← getStorage
  let changed ← ofExcept (change storage)
  modifyStorage fun _ => changed

/-- The segments one automatic reclamation removes. -/
def automaticReclaimSegmentsPerJob : Nat := 4

/-- The length of the log that asks for a compaction. -/
def manifestCompactionTriggerBytes : Nat := 8 * 1024 * 1024

/-- A compaction is due: the log is long, or the root and its reserve exceed the capacity. -/
def manifestCompactionRequired (logBytes actualFileBytes maintenanceHeadroomBytes : Nat)
    (capacity : Capacity) : Bool :=
  manifestCompactionTriggerBytes ≤ logBytes ||
    match capacity with
    | .unbounded => false
    | .bounded totalBytes _ =>
      (checkedAdd actualFileBytes maintenanceHeadroomBytes).all fun required => totalBytes < required

end Camus
