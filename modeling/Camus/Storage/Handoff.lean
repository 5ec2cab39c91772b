/-
**Reading, releasing and reclaiming.**

The consuming side of an open root.

* `Storage.read` returns the longest prefix of a stream's pending records within the limits.
* `releaseGroup` publishes a Release frame for every unit that names a pending record and then marks
  the records as released.
* `reclaim` removes sealed segments without unreleased records: removal frames first, then the files.
-/

import Camus.Storage.Operations

namespace Camus

open Codec Checked Disk FaultIo Result Std

/-- Cuts a list into pieces of a size. The first argument bounds the pieces. -/
def chunks {α : Type} (size : Nat) : Nat → List α → List (List α)
  | 0, _ => []
  | _ + 1, [] => []
  | fuel + 1, items => items.take size :: chunks size fuel (items.drop size)

section

variable [Hasher]

/-! ### Reading -/

/-- The records a read has selected: their bytes, and where the records of each segment start. -/
structure Selection where
  records : List StoredRecord
  groups : List (Nat × Nat)
  payloadBytes : Nat

/-- Selects one record. -/
def Selection.add (selection : Selection) (segmentId : Nat) (record : StoredRecord)
    (payloadBytes : Nat) : Selection where
  records := selection.records ++ [record]
  groups := if selection.groups.getLast?.all fun group => group.1 ≠ segmentId
    then selection.groups ++ [(segmentId, selection.records.length)] else selection.groups
  payloadBytes := payloadBytes

/-- The record a pending entry points to. -/
def Storage.pendingRecord (storage : Storage) (pointer : RecordPointer) : Except Error StoredRecord :=
  orError (.corruption (.entry .segments) 0 "pending index points outside a segment")
    (storage.segments[pointer.segmentId]?.bind fun segment => segment.records[pointer.ordinal]?)

/-- Selects pending records in order while they fit. -/
def Storage.selectRecords (storage : Storage) (streamId : StreamId) (limits : ReadLimits) :
    Selection → List (Nat × RecordPointer) → Except Error Selection
  | selection, [] => .ok selection
  | selection, (sequence, pointer) :: rest => do
    let record ← storage.pendingRecord pointer
    let projected ← orError (.corruption (.segment (.log pointer.segmentId))
      record.payloadOffset "read payload byte count overflow")
      (checkedAdd selection.payloadBytes record.payloadLen)
    if limits.maxBytes < projected then
      if selection.records = [] then
        .error (.readLimitTooSmall ⟨storage.rootId, streamId, sequence⟩ record.payloadLen
          limits.maxBytes)
      else .ok selection
    else storage.selectRecords streamId limits (selection.add pointer.segmentId record projected) rest

/-- Reads the selected records, segment by segment. -/
def Storage.readGroups (storage : Storage) (records : List StoredRecord) :
    List (Nat × Nat) → FsIo (List PendingRecord)
  | [] => result []
  | (segmentId, start) :: rest => do
    let finish := (rest.head?.map (·.2)).getD records.length
    let segment ← ofExcept (storage.segmentAt segmentId)
    let found ← segment.readRecords storage.rootId ((records.drop start).take (finish - start))
    let others ← storage.readGroups records rest
    return found ++ others

/-- **Reads the first pending records of a stream** within the limits. -/
protected def Storage.read (storage : Storage) (streamId : StreamId) (limits : ReadLimits) :
    FsIo (Option (List PendingRecord)) := do
  require (limits.maxRecords ≠ 0) .invalidReadLimits
  match storage.streams[streamId]? with
  | none => result none
  | some stream => do
    let selection ← ofExcept (storage.selectRecords streamId limits ⟨[], [], 0⟩
      (stream.pending.toList.take limits.maxRecords))
    if selection.records = [] then result none else do
      let records ← storage.readGroups selection.records selection.groups
      return some records

/-! ### Releasing -/

/-- One identity of a release is in its scope: of this root and stream, and assigned. -/
def Storage.validateReleaseId (storage : Storage) (streamId : StreamId) (id : RecordId) :
    Except Error Unit := do
  ensure (id.rootId = storage.rootId && id.streamId = streamId)
    (.recordIdScopeMismatch id streamId)
  ensure (!(storage.streams[streamId]?.bind (·.highwater)).all
    fun highwater => highwater < id.sequence) (.unknownRecordId id)

/-- The identities of a release are few enough and in its scope. -/
def Storage.validateRelease (storage : Storage) (unit : ReleaseUnit) : Except Error Unit := do
  ensure (unit.ids.length ≤ storage.config.maxReleaseRecords)
    (.releaseTooLarge unit.ids.length storage.config.maxReleaseRecords)
  let _ ← tryMap (storage.validateReleaseId unit.streamId) unit.ids
  return ()

/-- Adds one sequence to the current range or starts a new one. -/
def coalesceFrom (current : SequenceRange) : List Nat → List SequenceRange
  | [] => [current]
  | sequence :: rest =>
    if checkedAdd current.start current.len = some sequence then
      coalesceFrom { current with len := current.len + 1 } rest
    else current :: coalesceFrom ⟨sequence, 1⟩ rest

/-- The maximal ranges of sorted sequences. -/
def coalesceSequences : List Nat → List SequenceRange
  | [] => []
  | sequence :: rest => coalesceFrom ⟨sequence, 1⟩ rest

/-- What a group of releases will do. -/
structure ReleasePlan where
  scheduled : ExtTreeSet Identity
  bodies : List ManifestBody
  applications : List (StreamId × List Nat)
  units : Nat
  records : Nat
  encodedBytes : Nat

/-- Schedules one sequence if it is pending and was not scheduled before. -/
def scheduleSequence (streamId : StreamId) (stream : Option StreamState)
    (found : ExtTreeSet Identity × List Nat) (sequence : Nat) :
    ExtTreeSet Identity × List Nat :=
  if stream.any (fun state => state.pending.contains sequence) &&
      !found.1.contains (streamId, sequence) then
    (found.1.insert (streamId, sequence), found.2 ++ [sequence])
  else found

/-- Adds the frame of one unit that releases some sequences. -/
def ReleasePlan.add (plan : ReleasePlan) (streamId : StreamId)
    (scheduled : ExtTreeSet Identity) (sequences : List Nat) : Except Error ReleasePlan := do
  let ranges := coalesceSequences sequences
  let rangeCount ← orError (.invalidConfig "release range count does not fit u64")
    (toWord ranges.length)
  let frameBytes ← orError (.invalidConfig "release frame byte count overflow")
    (maximalReleaseFrame rangeCount)
  return {
    scheduled := scheduled
    bodies := plan.bodies ++ [.release ⟨streamId, ranges⟩]
    applications := plan.applications ++ [(streamId, sequences)]
    units := saturatingAdd plan.units 1
    records := saturatingAdd plan.records (saturatingWord sequences.length)
    encodedBytes := saturatingAdd plan.encodedBytes frameBytes }

/-- Plans one unit. -/
def Storage.planUnit (storage : Storage) (plan : ReleasePlan) (unit : ReleaseUnit) :
    Except Error ReleasePlan := do
  storage.validateRelease unit
  let (scheduled, chosen) := (unit.ids.map (·.sequence)).foldl
    (scheduleSequence unit.streamId storage.streams[unit.streamId]?) (plan.scheduled, [])
  let sequences := (chosen.insertionSort (· ≤ ·)).dedup
  if sequences = [] then .ok { plan with scheduled := scheduled }
  else plan.add unit.streamId scheduled sequences

/-- Plans a group of releases. -/
def Storage.planReleases (storage : Storage) (units : List ReleaseUnit) :
    Except Error ReleasePlan :=
  tryFold storage.planUnit ⟨∅, [], [], 0, 0, 0⟩ units

/-- A segment with one more record released. -/
def Segment.releaseRecord (segment : Segment) (ordinal unreleasedRecords : Nat) : Segment :=
  { segment with
    records := segment.records.modify ordinal fun record => { record with released := true }
    unreleasedRecords := unreleasedRecords }

/-- Marks the record at a pending entry as released. -/
def Storage.releasePointer (storage : Storage) (streamId : StreamId) (sequence : Nat)
    (stream : StreamState) (pointer : RecordPointer) : Except Error Storage := do
  let segment ← orError (.panicked "pending segment exists")
    storage.segments[pointer.segmentId]?
  let record ← orError (.panicked "index out of bounds") segment.records[pointer.ordinal]?
  let unreleasedRecords ← orError
    (.panicked "pending segment release accounting is exact")
    (checkedSub segment.unreleasedRecords 1)
  let streamBytes ← orError (.panicked "pending payload accounting is exact")
    (checkedSub stream.pendingPayloadBytes record.payloadLen)
  let pendingRecords ← orError (.panicked "root pending record accounting is exact")
    (checkedSub storage.pendingRecords 1)
  let rootBytes ← orError (.panicked "root pending payload accounting is exact")
    (checkedSub storage.pendingPayloadBytes record.payloadLen)
  let becameReclaimable := segment.footer.isSome && segment.unreleasedRecords = 1
  return { storage with
    segments := storage.segments.insert pointer.segmentId
      (segment.releaseRecord pointer.ordinal unreleasedRecords)
    streams := storage.streams.insert streamId { stream with
      pending := stream.pending.erase sequence
      pendingPayloadBytes := streamBytes }
    pendingRecords := pendingRecords
    pendingPayloadBytes := rootBytes
    reclaimableSegments := if becameReclaimable
      then saturatingAdd storage.reclaimableSegments 1 else storage.reclaimableSegments
    reclaimableBytes := if becameReclaimable
      then saturatingAdd storage.reclaimableBytes segment.fileLen else storage.reclaimableBytes }

/-- Marks a record as released, if it is pending. -/
def Storage.markRecordReleased (storage : Storage) (identity : Identity) : Except Error Storage :=
  match storage.streams[identity.1]?.bind fun stream =>
      stream.pending[identity.2]?.map fun pointer => (stream, pointer) with
  | none => .ok storage
  | some (stream, pointer) => storage.releasePointer identity.1 identity.2 stream pointer

/-- Counts a release group. -/
def CommitStats.countRelease (stats : CommitStats) (plan : ReleasePlan) : CommitStats :=
  { stats with
    releaseGroups := saturatingAdd stats.releaseGroups 1
    releaseUnits := saturatingAdd stats.releaseUnits plan.units
    releaseRecords := saturatingAdd stats.releaseRecords plan.records
    releaseEncodedBytes := saturatingAdd stats.releaseEncodedBytes plan.encodedBytes
    maxReleaseUnits := max stats.maxReleaseUnits plan.units
    maxReleaseEncodedBytes := max stats.maxReleaseEncodedBytes plan.encodedBytes }

/-- The records a plan releases. -/
def ReleasePlan.identities (plan : ReleasePlan) : List Identity :=
  plan.applications.flatMap fun (streamId, sequences) =>
    sequences.map fun sequence => (streamId, sequence)

/-- **Releases a group of units.** -/
def releaseGroup (units : List ReleaseUnit) : StorageIo Unit := do
  let storage ← getStorage
  let plan ← ofExcept (storage.planReleases units)
  if plan.bodies = [] then result () else do
    appendManifestGroup plan.bodies .unknown
    modifyStorage fun storage => { storage with commits := storage.commits.countRelease plan }
    tryStorage fun storage =>
      tryFold Storage.markRecordReleased storage plan.identities
    let _ ← maybeCompactManifest
    return ()

/-! ### Reclaiming -/

/-- The greatest sequence of each stream in a segment. -/
def Segment.maxima (segment : Segment) : Highwaters :=
  segment.records.foldl
    (fun maxima record => maxima.insert record.streamId
      ((maxima[record.streamId]?.map fun sequence => max sequence record.sequence).getD
        record.sequence)) ∅

/-- The removal frame of a segment: the high-waters that no earlier frame has persisted. -/
def removalBody (segment : Segment) (segmentId : Nat)
    (persistedHighwaters : Highwaters) : SegmentRemovedBody where
  segmentId := segmentId
  highwaters := (segment.maxima.toList.filter fun (streamId, sequence) =>
    persistedHighwaters[streamId]?.all fun current => current < sequence).map
      fun (streamId, sequence) => ⟨streamId, sequence⟩

/-- The high-waters after a removal frame. -/
def persistBody (persistedHighwaters : Highwaters) (body : SegmentRemovedBody) :
    Highwaters :=
  body.highwaters.foldl
    (fun persisted highwater => persisted.insert highwater.streamId highwater.sequence)
    persistedHighwaters

/-- The removal frames of a batch. -/
def Storage.removalBodies (storage : Storage) :
    Highwaters → List Nat → Except Error (List SegmentRemovedBody)
  | _, [] => .ok []
  | persistedHighwaters, segmentId :: rest => do
    let segment ← storage.segmentAt segmentId
    let body := removalBody segment segmentId persistedHighwaters
    let bodies ← storage.removalBodies (persistBody persistedHighwaters body) rest
    return body :: bodies

/-- Records one persisted high-water. -/
def Storage.persistHighwater (storage : Storage) (highwater : StreamHighwater) :
    Except Error Storage := do
  let stream ← orError (.panicked "removed segment stream exists")
    storage.streams[highwater.streamId]?
  return { storage with
    streams := storage.streams.insert highwater.streamId
      { stream with persistedHighwater := some highwater.sequence } }

/-- Takes a segment out of the state in memory. -/
def Storage.dropSegment (segmentId : Nat) (storage : Storage) : Except Error Storage := do
  let segment ← orError (.panicked "eligible segment exists") storage.segments[segmentId]?
  let reclaimableSegments ← orError
    (.panicked "eligible segment accounting is exact") (checkedSub storage.reclaimableSegments 1)
  let reclaimableBytes ← orError
    (.panicked "eligible segment byte accounting is exact")
    (checkedSub storage.reclaimableBytes segment.fileLen)
  return { storage with
    segments := storage.segments.erase segmentId
    reclaimableSegments := reclaimableSegments
    reclaimableBytes := reclaimableBytes }

/-- Removes the segments of a batch and returns their lengths. -/
def removeSegments : List Nat → StorageIo (List Nat)
  | [] => result []
  | segmentId :: rest => do
    let storage ← getStorage
    let segment ← ofOption (.panicked "eligible segment exists") storage.segments[segmentId]?
    tryStorage (Storage.dropSegment segmentId)
    onDisk (segmentsDirectory.removeFile (.log segmentId)
      (.io "delete reclaimed segment" (.segment (.log segmentId)) .unknown))
    let removed ← removeSegments rest
    return segment.fileLen :: removed

/-- Removes a batch of segments. -/
def reclaimBatch (eligible : List Nat) : StorageIo ReclaimReport :=
  if eligible = [] then result ⟨0, 0⟩ else do
    let storage ← getStorage
    let bodies ← ofExcept (storage.removalBodies
      (storage.streams.filterMap fun _ stream => stream.persistedHighwater) eligible)
    appendManifestGroup (bodies.map .segmentRemoved) .unknown
    tryStorage fun storage =>
      tryFold Storage.persistHighwater storage (bodies.flatMap (·.highwaters))
    let removed ← removeSegments eligible
    onDisk (segmentsDirectory.syncDirectory .unknown)
    let report : ReclaimReport := ⟨saturatingWord removed.length, removed.foldl saturatingAdd 0⟩
    tryStorage (Storage.subtractActualFileBytes report.bytes)
    modifyStorage fun storage => { storage with
      maintenance := { storage.maintenance with
        reclaimedSegments := saturatingAdd storage.maintenance.reclaimedSegments report.segments
        reclaimedBytes := saturatingAdd storage.maintenance.reclaimedBytes report.bytes } }
    return report

/-- Removes batches of segments one after the other. -/
def reclaimBatches : ReclaimReport → List (List Nat) → StorageIo ReclaimReport
  | report, [] => result report
  | report, batch :: rest => do
    let reclaimed ← reclaimBatch batch
    reclaimBatches ⟨saturatingAdd report.segments reclaimed.segments,
      saturatingAdd report.bytes reclaimed.bytes⟩ rest

/-- The segments that may be removed. -/
def Storage.eligibleSegments (storage : Storage) : List Nat :=
  (storage.segments.toList.filter fun entry => entry.2.isReclaimable).map (·.1)

/-- Seals the active segment if it holds no unreleased record. -/
def sealDrained : StorageIo Unit := do
  let storage ← getStorage
  match storage.activeSegment with
  | none => result ()
  | some active => do
    let segment ← ofExcept (storage.segmentAt active)
    if segment.unreleasedRecords = 0 then sealActive .reclaim else result ()

/-- How many segments one reclamation removes. -/
def ReclaimKind.limit : ReclaimKind → List Nat → List Nat
  | .automatic, eligible => eligible.take automaticReclaimSegmentsPerJob
  | .explicit, eligible => eligible

/-- Counts a reclamation. -/
def MaintenanceStats.countReclaim (stats : MaintenanceStats) : ReclaimKind → MaintenanceStats
  | .automatic =>
    { stats with automaticReclaimPasses := saturatingAdd stats.automaticReclaimPasses 1 }
  | .explicit =>
    { stats with explicitReclaimPasses := saturatingAdd stats.explicitReclaimPasses 1 }

/-- Compacts the manifest after a reclamation: always when it removed the last segment. -/
def compactAfterReclaim (report : ReclaimReport) : StorageIo Unit := do
  let storage ← getStorage
  if (report.segments ≠ 0 || report.bytes ≠ 0) && storage.segments.isEmpty then compactManifest
  else do
    let _ ← maybeCompactManifest
    return ()

/-- **Removes sealed segments without unreleased records.** -/
def reclaim (kind : ReclaimKind) : StorageIo ReclaimReport := do
  sealDrained
  let storage ← getStorage
  let eligible := kind.limit storage.eligibleSegments
  let report ← reclaimBatches ⟨0, 0⟩
    (chunks automaticReclaimSegmentsPerJob eligible.length eligible)
  compactAfterReclaim report
  modifyStorage fun storage => { storage with
    maintenance := storage.maintenance.countReclaim kind }
  return report

end

end Camus
