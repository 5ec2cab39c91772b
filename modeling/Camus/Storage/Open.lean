/-
**Opening a root.**

`Storage.open` completes the initialisation of a new root, removes temporaries, reads the control
state, scans the segments, publishes seals a crash left unpublished and rebuilds the indexes.

* `enumerateSegments` removes temporaries and remnants of removed segments and checks that the
  segments on disk are those the control state explains.
* `recoverSegments` scans them and matches their footers with the control state.
-/

import Camus.Storage.Recovery

namespace Camus

open Codec Checked Disk FaultIo Result Std

section

variable [Hasher]

/-! ### The root directory -/

/-- Runs a program if the root directory holds a name. -/
def whenHeld (name : RootName) (program : FsIo Unit) : FsIo Unit := do
  let fs ← read
  if rootDirectory.holds name fs then program else result ()

/-- Removes one stale temporary file, if it is there. -/
def removeRootTemporary (removed : Nat) (name : RootName) : FsIo Nat := do
  let fs ← read
  if rootDirectory.holds name fs then do
    rootDirectory.removeFile name (.io "remove stale root temporary" (.entry name) .unknown)
    return saturatingAdd removed 1
  else return removed

/-- Removes the stale temporary files of the root directory. -/
def removeRootTemporaries : FsIo Nat := do
  let first ← removeRootTemporary 0 .rootTemporary
  let second ← removeRootTemporary first .checkpointTemporary
  let removed ← removeRootTemporary second .manifestLogTemporary
  if removed ≠ 0 then do
    rootDirectory.syncDirectory .unknown
    return removed
  else return removed

/-- Creates `ROOT` unless it exists. `entropy` is the identity a new root gets. -/
def initializeOrValidateRoot (entropy : RootId) : FsIo Nat := do
  let fs ← read
  if rootDirectory.holds .rootFile fs then return 0 else do
    whenHeld .segments
      (observe (.io "enumerate partial segment directory" (.entry .segments) .notApplicable))
    require (!(rootDirectory.holds .segments fs && !fs.segments.entries.isEmpty))
      (.corruption .root 0 "ROOT is missing while canonical segment state exists")
    require (!(rootDirectory.holds .checkpoint fs || rootDirectory.holds .manifestLog fs))
      (.corruption .root 0 "ROOT is missing while canonical manifest state exists")
    let removedTemporaries ← removeRootTemporaries
    observe (.io "generate root identity" .root .unknown)
    atomicReplace .rootTemporary .rootFile (RootSuperblock.encode ⟨entropy⟩) .unknown
    return removedTemporaries

/-- The partial checkpoint of an interrupted initialisation. -/
def validatePartialCheckpoint (rootId : RootId) : FsIo Unit := do
  let bytes ← readCompleteFile .checkpoint
  let state ← ofExcept (malformed checkpointPath 0 (Checkpoint.decode bytes))
  require (state.rootId = rootId && state.lastAppliedSeq = 0 && state.nextSegmentId = 0 &&
      state.streamHighwaters.isEmpty && state.segments.isEmpty)
    (.corruption checkpointPath 0
      "missing manifest peer is not a partial empty-root initialization")

/-- The partial log of an interrupted initialisation. -/
def validatePartialLog (rootId : RootId) : FsIo Unit := do
  let bytes ← readCompleteFile .manifestLog
  let header ← ofExcept (malformed manifestPath 0 (ManifestLogHeader.decode bytes))
  require (header.rootId = rootId && header.baseSeq = 1)
    (.corruption manifestPath 0
      "missing checkpoint peer is not a partial empty-root initialization")

/-- Creates checkpoint and log unless both exist. -/
def completeEmptyControlInitialization (rootId : RootId) : FsIo Unit := do
  let fs ← read
  if rootDirectory.holds .checkpoint fs && rootDirectory.holds .manifestLog fs then result ()
  else do
    observe (.io "enumerate segment directory" (.entry .segments) .notApplicable)
    require fs.segments.entries.isEmpty
      (.corruption .root 0 "manifest artifacts are missing while segment state exists")
    whenHeld .checkpoint (validatePartialCheckpoint rootId)
    whenHeld .manifestLog (validatePartialLog rootId)
    whenHeld .checkpoint (rootDirectory.removeFile .checkpoint
      (.io "remove partial empty-root control file" checkpointPath .unknown))
    whenHeld .manifestLog (rootDirectory.removeFile .manifestLog
      (.io "remove partial empty-root control file" manifestPath .unknown))
    rootDirectory.syncDirectory .unknown
    createInitial rootId

/-! ### The segment directory -/

/-- What an enumeration of the segment directory has found. -/
structure Enumerated where
  segments : ExtTreeSet Nat
  completedDeletions : Nat
  removedTemporaries : Nat

/-- Takes one entry of the segment directory into account. -/
def enumerateEntry (rootId : RootId) (control : Control) (found : Enumerated) (name : SegmentName) :
    FsIo Enumerated := do
  observe (.io "read segment directory entry" (.entry .segments) .notApplicable)
  if (parseSegmentTemporaryName name).isSome then do
    segmentsDirectory.removeFile name
      (.io "remove stale temporary segment" (.segment name) .unknown)
    return { found with removedTemporaries := saturatingAdd found.removedTemporaries 1 }
  else do
    let segmentId ← ofOption
      (.corruption (.segment name) 0 "unknown entry in canonical segment directory")
      (parseSegmentName name)
    if control.removedSegments.contains segmentId then do
      validateRemovedSegmentHeader rootId segmentId
      segmentsDirectory.removeFile name
        (.io "complete durable segment deletion" (.segment name) .unknown)
      return { found with completedDeletions := saturatingAdd found.completedDeletions 1 }
    else do
      require (!found.segments.contains segmentId)
        (.corruption (.segment name) 0 "duplicate canonical segment ID")
      return { found with segments := found.segments.insert segmentId }

/-- Takes the entries of the segment directory into account one by one. -/
def enumerateEntries (rootId : RootId) (control : Control) :
    Enumerated → List SegmentName → FsIo Enumerated
  | found, [] => result found
  | found, name :: rest => do
    let next ← enumerateEntry rootId control found name
    enumerateEntries rootId control next rest

/-- The segments created after the checkpoint. -/
def suffixIds (checkpointNextSegmentId : Nat) (control : Control) (segments : List Nat) : List Nat :=
  (ExtTreeSet.ofList
    ((control.liveSegments.toList.filter fun entry => entry.2.checkpointRecordCount.isNone &&
        checkpointNextSegmentId ≤ entry.1).map (·.1) ++
      control.removedSegments.keys.filter (checkpointNextSegmentId ≤ ·) ++
      segments.filter fun segmentId => !control.liveSegments.contains segmentId)).toList

/-- One identity of the suffix must be the next one. -/
def followSuffix (expected : Option Nat) (segmentId : Nat) : Except Error (Option Nat) := do
  let expectedText := (expected.map toString).getD "exhausted"
  ensure (expected = some segmentId) (.corruption (.entry .segments) 0
    s!"post-checkpoint segment allocation has ID {segmentId}, expected {expectedText}")
  return checkedAdd segmentId 1

/-- The segments on disk are those the control state explains. -/
def explainSegments (checkpointNextSegmentId : Nat) (control : Control) (segments : List Nat) :
    Except Error Unit := do
  let _ ← tryMap (fun segmentId => ensure
    (control.liveSegments.contains segmentId || checkpointNextSegmentId ≤ segmentId)
    (.corruption (.segment (.log segmentId)) 0 "unexplained canonical segment ID")) segments
  let _ ← tryFold followSuffix (some checkpointNextSegmentId)
    (suffixIds checkpointNextSegmentId control segments)
  return ()

/-- Syncs the segment directory if an enumeration removed something. -/
def syncRemovals (found : Enumerated) : FsIo Unit :=
  if found.completedDeletions ≠ 0 || found.removedTemporaries ≠ 0 then
    segmentsDirectory.syncDirectory .unknown
  else result ()

/-- Lists the segments on disk, after removing temporaries and remnants of removed segments. -/
def enumerateSegments (rootId : RootId) (recovery : ControlRecovery) (listing : Listing) :
    FsIo Enumerated := do
  observe (.io "enumerate segment directory" (.entry .segments) .notApplicable)
  let fs ← read
  let found ← enumerateEntries rootId recovery.control ⟨∅, 0, 0⟩ (listing.names fs)
  syncRemovals found
  ofExcept (explainSegments recovery.checkpointNextSegmentId recovery.control found.segments.toList)
  return found

/-! ### Segments against the control state -/

/-- What a scan of all segments has found. -/
structure ScannedSegments where
  segments : SegmentMap
  missingSeals : List SegmentFooter
  activeCandidates : List Nat

/-- Matches the footer of a scanned segment with the control state. -/
def classifySegment (expected : Option ControlSegment) (segment : Segment)
    (found : ScannedSegments) : Except Error ScannedSegments :=
  let scanned := { found with segments := found.segments.insert segment.id segment }
  match expected.map ControlSegment.lifecycle, segment.footer with
  | some (.sealed authoritative), some footer => do
    ensure (authoritative = footer)
      (.corruption segment.path (segment.fileLen - segmentFooterLen)
        "segment footer contradicts manifest state")
    return scanned
  | some (.sealed _), none => .error (.corruption segment.path segment.fileLen
      "manifest-sealed segment has no complete footer")
  | _, some footer => .ok { scanned with missingSeals := found.missingSeals ++ [footer] }
  | _, none => .ok { scanned with activeCandidates := found.activeCandidates ++ [segment.id] }

/-- Scans one segment and matches it with the control state. -/
def scanSegment (rootId : RootId) (control : Control) (found : ScannedSegments) (segmentId : Nat) :
    FsIo ScannedSegments := do
  let expected := control.liveSegments[segmentId]?
  let segment ← Segment.scan rootId segmentId (expected.all fun entry => entry.lifecycle.isActive)
    (expected.bind (·.checkpointRecordCount))
  ofExcept (classifySegment expected segment found)

/-- Scans the segments in the order of their identities. -/
def scanSegments (rootId : RootId) (control : Control) :
    ScannedSegments → List Nat → FsIo ScannedSegments
  | found, [] => result found
  | found, segmentId :: rest => do
    let next ← scanSegment rootId control found segmentId
    scanSegments rootId control next rest

/-- The scanned segments against the control state as a whole; returns the active one. -/
def validateScannedSegments (control : Control) (found : ScannedSegments) :
    Except Error (Option Nat) := do
  let _ ← tryMap (fun segmentId => ensure (found.segments.contains segmentId)
    (.corruption (.segment (.log segmentId)) 0 "manifest-live segment is missing"))
    control.liveSegments.keys
  ensure (found.activeCandidates.length ≤ 1)
    (.corruption (.entry .segments) 0 "more than one physical segment is active")
  let active := found.activeCandidates.head?
  ensure (active.isNone || Maps.greatest found.segments = active)
    (.corruption (.entry .segments) 0 "active segment is not the greatest extant segment")
  return active

/-- Publishes the seals whose footer is durable and whose frame is not. -/
def completeSeals (manifest : Manifest) (control : Control) :
    List SegmentFooter → FsIo (Manifest × Control)
  | [] => result (manifest, control)
  | footer :: rest => do
    let appended ← manifest.appendGroup [.segmentSealed footer.sealedBody] .unknown
    completeSeals appended
      { control with
        liveSegments := control.liveSegments.insert footer.segmentId ⟨.sealed footer, none, none⟩ }
      rest

/-- The identity of the next segment. -/
def deriveNextSegmentId (checkpointNext : Nat) (identities : List Nat) : Except Error Nat :=
  match identities.max? with
  | some greatest => do
    let derived ← orError .segmentIdExhausted (checkedAdd greatest 1)
    return max checkpointNext derived
  | none => .ok (max checkpointNext 0)

/-- Counts the unreleased records of every segment. -/
def refreshSegments (segments : SegmentMap) : Except Error SegmentMap :=
  tryFold
    (fun found (entry : Nat × Segment) => do
      let segment ← entry.2.refreshUnreleasedRecords
      return found.insert entry.1 segment)
    segments segments.toList

/-- Adds the pending records of a stream. -/
def addPendingCount (total : Nat) (stream : StreamState) : Except Error Nat := do
  let count ← orError (.invalidConfig "pending record count does not fit u64")
    (toWord stream.pending.size)
  orError (.invalidConfig "pending record count overflow") (checkedAdd total count)

/-- Adds the pending payload bytes of a stream. -/
def addPendingBytes (total : Nat) (stream : StreamState) : Except Error Nat :=
  orError (.invalidConfig "pending payload byte count overflow")
    (checkedAdd total stream.pendingPayloadBytes)

/-- A segment may be reclaimed: it is sealed and holds no unreleased record. -/
def Segment.isReclaimable (segment : Segment) : Bool :=
  segment.footer.isSome && segment.unreleasedRecords = 0

/-- Counts one reclaimable segment. -/
def addReclaimable (total : Nat × Nat) (segment : Segment) : Nat × Nat :=
  if segment.isReclaimable then (saturatingAdd total.1 1, saturatingAdd total.2 segment.fileLen)
  else total

/-- Recomputes the aggregates of a recovered root. -/
def refreshRecoveredAggregates (storage : Storage) : Except Error Storage := do
  let segments ← refreshSegments storage.segments
  let durableStreams ← orError (.invalidConfig "stream count does not fit u64")
    (toWord ((Maps.values storage.streams).countP fun stream => stream.highwater.isSome))
  let pendingRecords ← tryFold addPendingCount 0 (Maps.values storage.streams)
  let pendingPayloadBytes ← tryFold addPendingBytes 0 (Maps.values storage.streams)
  let (reclaimableSegments, reclaimableBytes) := (Maps.values segments).foldl addReclaimable (0, 0)
  return { storage with
    segments := segments
    durableStreams := durableStreams
    pendingRecords := pendingRecords
    pendingPayloadBytes := pendingPayloadBytes
    reclaimableSegments := reclaimableSegments
    reclaimableBytes := reclaimableBytes }

/-- A count as a word, at most the greatest one. -/
def saturatingWord (value : Nat) : Nat := min value wordMax

/-- Sums a count over segments. -/
def sumSegments (count : Segment → Nat) (segments : SegmentMap) : Nat :=
  (Maps.values segments).foldl (fun total segment => saturatingAdd total (saturatingWord (count segment))) 0

/-- What the recovery did. -/
def recoveryStats (recovery : ControlRecovery) (found : Enumerated) (scanned : ScannedSegments)
    (removedRootTemporaries : Nat) : RecoveryStats where
  manifestFramesScanned := recovery.framesScanned
  segmentsScanned := saturatingWord scanned.segments.size
  epochsScanned := sumSegments (fun segment => segment.epochs.length) scanned.segments
  recordsScanned := sumSegments (fun segment => segment.records.length) scanned.segments
  repairedActiveTails := saturatingWord
    ((Maps.values scanned.segments).countP fun segment => segment.repairedTail)
  repairedManifestTails := recovery.repairedTail.toNat
  completedSegmentSeals := saturatingWord scanned.missingSeals.length
  completedSegmentDeletions := found.completedDeletions
  removedTemporaryFiles := saturatingAdd removedRootTemporaries found.removedTemporaries

/-- The pure end of a recovery: indexes, next segment, aggregates. -/
def assembleStorage (config : Config) (rootId : RootId) (recovery : ControlRecovery)
    (manifest : Manifest) (control : Control) (scanned : ScannedSegments)
    (activeSegment : Option Nat) (stats : RecoveryStats) : Except Error Storage := do
  let (segments, streams) ← rebuildIndexes scanned.segments recovery.checkpointStreamHighwaters
    control
  let nextSegmentId ← deriveNextSegmentId recovery.checkpointNextSegmentId
    (segments.keys ++ control.removedSegments.keys)
  refreshRecoveredAggregates {
    config := config
    rootId := rootId
    manifest := manifest
    segments := segments
    activeSegment := activeSegment
    streams := streams
    nextSegmentId := nextSegmentId
    actualFileBytes := 0
    durableStreams := 0
    pendingRecords := 0
    pendingPayloadBytes := 0
    reclaimableSegments := 0
    reclaimableBytes := 0
    commits := {}
    maintenance := {}
    recovery := stats }

/-- Recovers the segments of a root. -/
def recoverSegments (config : Config) (rootId : RootId) (recovery : ControlRecovery)
    (removedRootTemporaries : Nat) (listing : Listing) : FsIo Storage := do
  let found ← enumerateSegments rootId recovery listing
  let scanned ← scanSegments rootId recovery.control ⟨∅, [], []⟩ found.segments.toList
  let activeSegment ← ofExcept (validateScannedSegments recovery.control scanned)
  let (manifest, control) ← completeSeals recovery.manifest recovery.control
    (scanned.missingSeals.insertionSort fun left right => left.segmentId ≤ right.segmentId)
  ofExcept (assembleStorage config rootId recovery manifest control scanned activeSegment
    (recoveryStats recovery found scanned removedRootTemporaries))

/-- Adds the bytes of a segment. -/
def addSegmentBytes (total : Nat) (segment : Segment) : Except Error Nat :=
  orError (.corruption segment.path 0 "root byte accounting overflow")
    (checkedAdd total segment.fileLen)

/-- Sums the lengths of the files of a root. -/
def calculateActualFileBytesFromDisk (segments : SegmentMap) : FsIo Nat := do
  let checkpointBytes ← fileLen .checkpoint
  let withCheckpoint ← ofOption (.corruption checkpointPath 0 "root byte accounting overflow")
    (checkedAdd rootSuperblockLen checkpointBytes)
  let logBytes ← fileLen .manifestLog
  let withLog ← ofOption (.corruption manifestPath 0 "root byte accounting overflow")
    (checkedAdd withCheckpoint logBytes)
  ofExcept (tryFold addSegmentBytes withLog (Maps.values segments))

/-- **Opens a root.** `entropy` is the identity a new root gets, `listing` the order in which the
filesystem enumerates the segment directory. -/
def Storage.open (config : Config) (entropy : RootId) (listing : Listing) : FsIo Storage := do
  ofExcept config.validate
  let initializedTemporaries ← initializeOrValidateRoot entropy
  let rootBytes ← readCompleteFile .rootFile
  let root ← ofExcept (malformed (.entry .rootFile) 0 (RootSuperblock.decode rootBytes))
  ensureSegmentsDirectory
  completeEmptyControlInitialization root.rootId
  let rootTemporaries ← removeRootTemporaries
  let recovery ← recover root.rootId
  let storage ← recoverSegments config root.rootId recovery
    (saturatingAdd initializedTemporaries rootTemporaries) listing
  let actualFileBytes ← calculateActualFileBytesFromDisk storage.segments
  ofExcept ({ storage with actualFileBytes := actualFileBytes } : Storage).validateCapacity
  return { storage with actualFileBytes := actualFileBytes }

end

end Camus
