/-
**Appending to an open root.**

* `appendGroup` encodes a group of append units, seals the active segment where it is expired or
  full, writes the group to the active segment or a new one and indexes its records.
* `compactManifest` replaces checkpoint and log; `maybeCompactManifest` does so when it is due.

Clock readings are arguments: one for the age of the active segment, one for the creation time of a
new segment.
-/

import Camus.Storage.Open

namespace Camus

open Codec Checked Disk FaultIo Result Std

section

variable [Hasher]

/-! ### The manifest of an open root -/

/-- Adds frames to the manifest and accounts for their bytes. -/
def appendManifestGroup (bodies : List ManifestBody) (outcome : DurabilityOutcome) :
    StorageIo Unit := do
  let storage ← getStorage
  let previous ← ofExcept storage.manifest.controlFileLen
  let manifest ← onDisk (storage.manifest.appendGroup bodies outcome)
  modifyStorage fun storage => { storage with manifest := manifest }
  let current ← ofExcept manifest.controlFileLen
  tryStorage (Storage.replaceActualFileBytes previous current)

/-- The checkpoint entry of a segment. -/
def Segment.checkpointSegment (segment : Segment) : CheckpointSegment where
  lifecycle := (segment.footer.map SegmentLifecycle.sealed).getD .active
  recordCount := segment.records.length
  releases := ReleaseEncoding.fromFlags (segment.records.map (·.released))

/-- A checkpoint of its parts. -/
def checkpointFromState (rootId : RootId) (lastAppliedSeq nextSegmentId : Nat)
    (streamHighwaters : Highwaters)
    (segments : ExtTreeMap Nat CheckpointSegment) : Checkpoint :=
  { rootId, lastAppliedSeq, nextSegmentId, streamHighwaters, segments }

/-- The checkpoint of an open root. -/
def Storage.checkpoint (storage : Storage) : Checkpoint :=
  checkpointFromState storage.rootId storage.manifest.lastSeq storage.nextSegmentId
    (storage.streams.filterMap fun _ stream => stream.highwater)
    (storage.segments.map fun _ segment => segment.checkpointSegment)

/-- Replaces checkpoint and log by a checkpoint of the current state. -/
def compactManifest : StorageIo Unit := do
  let storage ← getStorage
  let previous ← ofExcept storage.manifest.controlFileLen
  let manifest ← onDisk (storage.manifest.compact storage.checkpoint)
  modifyStorage fun storage => { storage with manifest := manifest }
  let current ← ofExcept manifest.controlFileLen
  tryStorage (Storage.replaceActualFileBytes previous current)
  modifyStorage fun storage => { storage with
    maintenance := { storage.maintenance with
      manifestCompactions := saturatingAdd storage.maintenance.manifestCompactions 1 }
    streams := storage.streams.map fun _ stream =>
      { stream with persistedHighwater := stream.highwater } }

/-- Compacts the manifest when it is due. -/
def maybeCompactManifest : StorageIo Bool := do
  let storage ← getStorage
  let headroom ← ofExcept storage.maintenanceHeadroomBytes
  if manifestCompactionRequired storage.manifest.fileLen storage.actualFileBytes headroom
      storage.config.capacity then do
    compactManifest
    return true
  else return false

/-! ### Sealing -/

/-- Counts a rollover. -/
def MaintenanceStats.countRollover (stats : MaintenanceStats) : SealReason → MaintenanceStats
  | .size => { stats with sizeRollovers := saturatingAdd stats.sizeRollovers 1 }
  | .age => { stats with ageRollovers := saturatingAdd stats.ageRollovers 1 }
  | .reclaim => { stats with reclaimRollovers := saturatingAdd stats.reclaimRollovers 1 }

/-- The state after the active segment was sealed. -/
def Storage.sealed (segment : Segment) (reason : SealReason) (storage : Storage) : Storage :=
  { storage with
    reclaimableSegments := if segment.unreleasedRecords = 0
      then saturatingAdd storage.reclaimableSegments 1 else storage.reclaimableSegments
    reclaimableBytes := if segment.unreleasedRecords = 0
      then saturatingAdd storage.reclaimableBytes segment.fileLen else storage.reclaimableBytes
    maintenance := storage.maintenance.countRollover reason
    activeSegment := none }

/-- Seals a segment: its footer first, then the frame that announces it. -/
def sealSegment (segmentId : Nat) (reason : SealReason) : StorageIo Unit := do
  let storage ← getStorage
  let segment ← ofExcept (storage.segmentAt segmentId)
  let (sealed, footer) ← onDisk segment.sealData
  modifyStorage fun storage => { storage with segments := storage.segments.insert segmentId sealed }
  tryStorage (Storage.replaceActualFileBytes segment.fileLen footer.segmentBytes)
  appendManifestGroup [.segmentSealed { footer.sealedBody with segmentId := segmentId }] .unknown
  modifyStorage (Storage.sealed sealed reason)

/-- Seals the active segment, if there is one. -/
def sealActive (reason : SealReason) : StorageIo Unit := do
  let storage ← getStorage
  match storage.activeSegment with
  | none => result ()
  | some segmentId => sealSegment segmentId reason

/-- Seals the active segment if it is expired. -/
def sealExpired (clock : Clock) : StorageIo Bool := do
  let storage ← getStorage
  let expired ← ofExcept (storage.activeExpired clock)
  if storage.activeSegment.isSome && expired then do
    sealActive .age
    let _ ← maybeCompactManifest
    return true
  else return false

/-! ### Appending -/

/-- The sequence after the last one of a stream. -/
def nextSequence (streamId : StreamId) : Option Nat → Except Error Nat
  | some value => orError (.sequenceExhausted streamId) (checkedAdd value 1)
  | none => .ok 0

/-- Encodes one append unit after the last sequences assigned so far. -/
def prepareUnit (maxEpochBytes : Nat)
    (prepared : ExtTreeMap StreamId (Option Nat) × List PreparedEpoch) (unit : AppendUnit) :
    Except Error (ExtTreeMap StreamId (Option Nat) × List PreparedEpoch) := do
  let firstSequence ← nextSequence unit.streamId (prepared.1[unit.streamId]?.join)
  let epoch ← PreparedEpoch.new unit.streamId firstSequence unit.records
  ensure (epoch.encodedBytes ≤ maxEpochBytes)
    (.epochTooLarge epoch.encodedBytes maxEpochBytes)
  let count ← orError (.invalidConfig "append record count does not fit u64")
    (toWord epoch.recordCount)
  let last ← orError (.sequenceExhausted unit.streamId)
    (checkedAdd firstSequence (count - 1))
  return (prepared.1.insert unit.streamId (some last), prepared.2 ++ [epoch])

/-- Encodes a group of append units. -/
def Storage.prepareUnits (storage : Storage) (units : List AppendUnit) :
    Except Error (List PreparedEpoch) := do
  let (_, prepared) ← tryFold (prepareUnit storage.config.maxEpochBytes)
    (storage.streams.map fun _ stream => stream.highwater, []) units
  return prepared

/-- Adds the records of a unit. -/
def addUnitRecords (total : Nat) (unit : AppendUnit) : Except Error Nat := do
  let count ← orError (.invalidConfig "append record count does not fit u64")
    (toWord unit.records.length)
  orError (.invalidConfig "append record count overflow") (checkedAdd total count)

/-- Adds the bytes of an epoch. -/
def addEpochBytes (total : Nat) (epoch : PreparedEpoch) : Except Error Nat :=
  orError (.invalidConfig "append commit-group length overflow")
    (checkedAdd total epoch.encodedBytes)

/-- Indexes one durable record of a segment. -/
def indexDurableRecord (segmentId : Nat) (path : Artifact) (storage : Storage)
    (entry : StoredRecord × Nat) : Except Error Storage := do
  let (record, ordinal) := entry
  let stream := storage.stream record.streamId
  let expected := (stream.highwater.map fun value => saturatingAdd value 1).getD 0
  ensure (stream.highwater ≠ some wordMax && record.sequence = expected)
    (.corruption path record.descriptorOffset
      "durable append produced a noncontiguous stream sequence")
  let streamBytes ← orError (.corruption path 0 "pending payload bytes overflow")
    (checkedAdd stream.pendingPayloadBytes record.payloadLen)
  let rootBytes ← orError (.corruption path 0 "root pending payload bytes overflow")
    (checkedAdd storage.pendingPayloadBytes record.payloadLen)
  return { storage with
    streams := storage.streams.insert record.streamId { stream with
      highwater := some record.sequence
      lastSegmentId := some segmentId
      pending := stream.pending.insert record.sequence ⟨segmentId, ordinal⟩
      pendingPayloadBytes := streamBytes }
    durableStreams := if stream.highwater.isNone
      then saturatingAdd storage.durableStreams 1 else storage.durableStreams
    pendingRecords := saturatingAdd storage.pendingRecords 1
    pendingPayloadBytes := rootBytes }

/-- Indexes the records of a segment from an ordinal on. -/
def Storage.indexDurableRecords (segmentId start : Nat) (storage : Storage) :
    Except Error Storage := do
  let segment ← storage.segmentAt segmentId
  tryFold (indexDurableRecord segmentId segment.path) storage
    (segment.records.zipIdx.drop start)

/-- Takes the next segment identity. -/
def allocateSegmentId : StorageIo Nat := do
  let storage ← getStorage
  require (storage.nextSegmentId ≠ wordMax) .segmentIdExhausted
  modifyStorage fun storage => { storage with nextSegmentId := saturatingAdd storage.nextSegmentId 1 }
  return storage.nextSegmentId

/-- The streams of a group that have no record in the active segment yet. -/
def Storage.newStreams (storage : Storage) (active : Nat) (prepared : List PreparedEpoch) : Nat :=
  (ExtTreeSet.ofList (prepared.map (·.streamId))).toList.countP fun streamId =>
    storage.streams[streamId]?.bind (·.lastSegmentId) ≠ some active

/-- Writes a group to the active segment. -/
def appendToActive (active : Nat) (prepared : List PreparedEpoch) :
    StorageIo (List (List RecordId)) := do
  let storage ← getStorage
  let segment ← ofExcept (storage.segmentAt active)
  let (appended, ids) ← onDisk
    (segment.append storage.rootId prepared (storage.newStreams active prepared))
  modifyStorage fun storage => { storage with segments := storage.segments.insert active appended }
  tryStorage (Storage.indexDurableRecords active segment.records.length)
  tryStorage (Storage.replaceActualFileBytes segment.fileLen appended.fileLen)
  return ids

/-- Writes a group to a new segment. -/
def appendToNew (prepared : List PreparedEpoch) (creation : Clock) :
    StorageIo (List (List RecordId)) := do
  let segmentId ← allocateSegmentId
  let createdAt ← ofExcept (unixMillis creation)
  let storage ← getStorage
  let (segment, ids) ← onDisk (Segment.create storage.rootId segmentId createdAt prepared)
  modifyStorage fun storage => { storage with
    segments := storage.segments.insert segmentId segment
    activeSegment := some segmentId }
  tryStorage (Storage.indexDurableRecords segmentId 0)
  tryStorage (Storage.replaceActualFileBytes 0 segment.fileLen)
  return ids

/-- Seals the active segment if it is expired or has no room for a group. -/
def rollOver (groupBytes : Nat) (expiry : Clock) : StorageIo Unit := do
  let storage ← getStorage
  match storage.activeSegment with
  | none => result ()
  | some active => do
    let expired ← ofExcept (storage.activeExpired expiry)
    if expired then sealActive .age else do
      let room ← ofExcept (storage.segmentEpochCapacity active)
      if room < groupBytes then sealActive .size else result ()

/-- Writes a group to the active segment, or to a new one where there is none. -/
def writeGroup (prepared : List PreparedEpoch) (creation : Clock) :
    StorageIo (List (List RecordId)) := do
  let storage ← getStorage
  match storage.activeSegment with
  | some active => appendToActive active prepared
  | none => appendToNew prepared creation

/-- Counts an append group. -/
def CommitStats.countAppend (stats : CommitStats) (units records bytes : Nat) : CommitStats :=
  { stats with
    appendGroups := saturatingAdd stats.appendGroups 1
    appendUnits := saturatingAdd stats.appendUnits units
    appendRecords := saturatingAdd stats.appendRecords records
    appendEncodedBytes := saturatingAdd stats.appendEncodedBytes bytes
    maxAppendUnits := max stats.maxAppendUnits units
    maxAppendEncodedBytes := max stats.maxAppendEncodedBytes bytes }

/-- **Appends a group of units.** Returns the identities of the records of each unit. -/
def appendGroup (units : List AppendUnit) (expiry creation : Clock) :
    StorageIo (List (List RecordId)) :=
  if units = [] then result [] else do
    let storage ← getStorage
    let unitCount ← ofOption (.invalidConfig "append unit count does not fit u64")
      (toWord units.length)
    let appendedRecords ← ofExcept (tryFold addUnitRecords 0 units)
    let prepared ← ofExcept (storage.prepareUnits units)
    let groupBytes ← ofExcept (tryFold addEpochBytes 0 prepared)
    let freshCapacity ← ofOption (.panicked "configuration validated segment bounds")
      (checkedSub storage.config.segmentBytes (segmentHeaderLen + segmentFooterLen))
    require (groupBytes ≤ freshCapacity)
      (.runtime "reactor selected an append commit group larger than one segment")
    rollOver groupBytes expiry
    let ids ← writeGroup prepared creation
    modifyStorage fun storage => { storage with
      commits := storage.commits.countAppend unitCount appendedRecords groupBytes }
    return ids

end

end Camus
