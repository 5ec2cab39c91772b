/-
**Data segments.**

A segment file is a header, a sequence of epochs (one per append unit) and, once sealed, a footer.

* `PreparedEpoch.new` encodes one append unit; `Segment.create` and `Segment.append` write a group of
  them in one write and make it durable.
* `Segment.sealData` writes the footer.
* `Segment.scan` reads a segment back when a root is opened: it walks the epochs, cuts an incomplete
  tail where that is allowed and checks what it found.
* `Segment.readRecords` reads records by their recorded offsets, several contiguous ones at a time.
-/

import Camus.Format.Fixed
import Camus.Storage.Files

namespace Camus

open Codec Checked Disk FaultIo Result Std

/-! ### Data -/

/-- Where a record lies in its segment. -/
structure StoredRecord where
  streamId : StreamId
  sequence : Nat
  descriptorOffset : Nat
  metadataOffset : Nat
  metadataLen : Nat
  metadataChecksum : Nat
  payloadOffset : Nat
  payloadLen : Nat
  payloadChecksum : Nat
  released : Bool
deriving DecidableEq

/-- The records up to the end of one epoch, and its commit. -/
structure EpochBoundary where
  recordCount : Nat
  commit : Bytes
deriving DecidableEq

/-- A segment in memory. `file` is the inode of the open file. -/
structure Segment where
  id : Nat
  file : Nat
  header : SegmentHeader
  headerBytes : Bytes
  fileLen : Nat
  records : List StoredRecord
  uniqueStreams : Nat
  unreleasedRecords : Nat
  epochs : List EpochBoundary
  footer : Option SegmentFooter
  repairedTail : Bool
deriving DecidableEq

/-- One append unit, encoded up to its place in the segment. -/
structure PreparedEpoch where
  streamId : StreamId
  firstSequence : Nat
  encodedBytes : Nat
  header : Bytes
  descriptors : List Bytes
  records : List Record
deriving DecidableEq

/-- An epoch as the writer reports it. -/
structure WrittenEpoch where
  records : List StoredRecord
  commit : Bytes
  endOffset : Nat

/-- An epoch about to be written. -/
structure PendingEpochWrite where
  epoch : PreparedEpoch
  records : List StoredRecord
  commit : Bytes
  endOffset : Nat

/-- The bound of one coalesced read. -/
def maxCoalescedReadBytes : Nat := 1024 * 1024

/-- What a scan finds at the place of an epoch. -/
inductive ScanEpoch where
  | complete (records : List StoredRecord) (commit : Bytes) (endOffset : Nat)
  | incomplete

/-- What a scan finds in a segment file. `repair` is the length to cut the file to. -/
structure Scanned where
  records : List StoredRecord
  epochs : List EpochBoundary
  footer : Option SegmentFooter
  repair : Option Nat

/-- The path of a segment. -/
def Segment.path (segment : Segment) : Artifact := .segment (.log segment.id)

/-- A malformed structure at an offset of a file. -/
def malformed {α : Type} (path : Artifact) (offset : Nat) (value : FormatResult α) : Except Error α :=
  mapError (fun message => .corruption path offset message) value

section

variable [Hasher]

/-! ### Writing epochs -/

/-- Adds the descriptor of one record to those of an epoch. -/
def describeRecord (described : Nat × List Bytes) (record : Record) :
    Except Error (Nat × List Bytes) := do
  let descriptor ← mapError .invalidConfig
    (RecordDescriptor.new record.metadata record.payload)
  let length ← mapError .invalidConfig descriptor.encodedLen
  let recordsBytes ← orError (.invalidConfig "encoded epoch length overflowed")
    (checkedAdd described.1 length)
  return (recordsBytes, described.2 ++ [descriptor.encode])

/-- Encodes one append unit. -/
def PreparedEpoch.new (streamId : StreamId) (firstSequence : Nat) (records : List Record) :
    Except Error PreparedEpoch := do
  ensure (records ≠ []) .emptyAppend
  let recordCount ← orError (.invalidConfig "append record count does not fit u64")
    (toWord records.length)
  let _ ← orError (.sequenceExhausted streamId) (checkedAdd firstSequence (recordCount - 1))
  let (recordsBytes, descriptors) ← tryFold describeRecord (0, []) records
  let header ← mapError .invalidConfig
    (EpochHeader.encode ⟨streamId, firstSequence, recordCount, recordsBytes⟩)
  let encodedBytes ← orError (.invalidConfig "encoded epoch length overflowed")
    (do checkedAdd (← checkedAdd epochHeaderLen recordsBytes) epochCommitLen)
  return { streamId, firstSequence, encodedBytes, header, descriptors, records }

/-- The number of records of an epoch. -/
def PreparedEpoch.recordCount (epoch : PreparedEpoch) : Nat := epoch.records.length

/-- The records an epoch will have, from its descriptors, and the end of the last one. -/
def placeRecords (path : Artifact) (streamId : StreamId) (firstSequence : Nat) :
    Nat → Nat → List Bytes → Except Error (List StoredRecord × Nat)
  | _, offset, [] => .ok ([], offset)
  | index, offset, encoded :: rest => do
    let descriptor ← malformed path offset (RecordDescriptor.decode encoded)
    let metadataOffset ← orError (.corruption path offset "metadata offset overflow")
      (checkedAdd offset recordDescriptorLen)
    let payloadOffset ← orError (.corruption path offset "payload offset overflow")
      (checkedAdd metadataOffset descriptor.metadataLen)
    let sequence ← orError (.corruption path offset "record sequence overflows u64")
      (checkedAdd firstSequence index)
    let finish ← orError (.corruption path offset "record end overflow")
      (checkedAdd payloadOffset descriptor.payloadLen)
    let (records, last) ← placeRecords path streamId firstSequence (index + 1) finish rest
    return ({
      streamId := streamId
      sequence := sequence
      descriptorOffset := offset
      metadataOffset := metadataOffset
      metadataLen := descriptor.metadataLen
      metadataChecksum := descriptor.metadataChecksum
      payloadOffset := payloadOffset
      payloadLen := descriptor.payloadLen
      payloadChecksum := descriptor.payloadChecksum
      released := false } :: records, last)

/-- Places an epoch at an offset of its segment. -/
def prepareEpochWrite (path : Artifact) (start : Nat) (epoch : PreparedEpoch) :
    Except Error PendingEpochWrite := do
  let commit := EpochCommit.encode
    ⟨start, epoch.encodedBytes, epochDigest epoch.header epoch.descriptors⟩
  let offset ← orError (.corruption path start "epoch header end overflow")
    (checkedAdd start epochHeaderLen)
  let (records, finish) ← placeRecords path epoch.streamId epoch.firstSequence 0 offset
    epoch.descriptors
  let endOffset ← orError (.corruption path finish "epoch end overflow")
    (checkedAdd finish epochCommitLen)
  return { epoch, records, commit, endOffset }

/-- Places a group of epochs one after the other. -/
def prepareGroup (path : Artifact) : Nat → List PreparedEpoch → Except Error (List PendingEpochWrite)
  | _, [] => .ok []
  | offset, epoch :: rest => do
    let write ← prepareEpochWrite path offset epoch
    let writes ← prepareGroup path write.endOffset rest
    return write :: writes

/-- The bytes of one record of an epoch. -/
def recordSlices (entry : Record × Bytes) : Bytes := entry.2 ++ (entry.1.metadata ++ entry.1.payload)

/-- The bytes of one epoch. -/
def PendingEpochWrite.bytes (write : PendingEpochWrite) : Bytes :=
  write.epoch.header ++ ((write.epoch.records.zip write.epoch.descriptors).flatMap recordSlices ++
    write.commit)

/-- Writes a group of epochs at the end of a segment file. -/
def writeEpochGroup (inode : Nat) (path : Artifact) (start : Nat) (epochs : List PreparedEpoch) :
    FsIo (List WrittenEpoch) :=
  if epochs = [] then result [] else do
    let writes ← ofExcept (prepareGroup path start epochs)
    writeAll inode (writes.flatMap PendingEpochWrite.bytes) (.io "write epoch" path .unknown)
    return writes.map fun write => ⟨write.records, write.commit, write.endOffset⟩

/-- The identities of the records of an epoch. -/
def WrittenEpoch.ids (rootId : RootId) (written : WrittenEpoch) : List RecordId :=
  written.records.map fun record => ⟨rootId, record.streamId, record.sequence⟩

/-- Adds the records and the boundary of one written epoch. -/
def addBoundary (path : Artifact) (offset : WrittenEpoch → Nat)
    (found : List StoredRecord × List EpochBoundary) (written : WrittenEpoch) :
    Except Error (List StoredRecord × List EpochBoundary) := do
  let records := found.1 ++ written.records
  let recordCount ← orError
    (.corruption path (offset written) "segment record count does not fit u64")
    (toWord records.length)
  return (records, found.2 ++ [⟨recordCount, written.commit⟩])

/-- The end of a group of epochs written at an offset. -/
def groupEnd (start : Nat) (written : List WrittenEpoch) : Nat :=
  (written.getLast?.map (·.endOffset)).getD start

namespace Segment

/-- Creates a segment with a first group of epochs: written under a temporary name, published by a
rename, made durable with its directory. -/
def create (rootId : RootId) (segmentId createdAtUnixMillis : Nat) (epochs : List PreparedEpoch) :
    FsIo (Segment × List (List RecordId)) := do
  require (epochs ≠ []) (.invalidConfig "segment creation requires a first append group")
  let temporary : Artifact := .segment (.temporary segmentId)
  let canonical : Artifact := .segment (.log segmentId)
  let header : SegmentHeader := { rootId, segmentId, createdAtUnixMillis }
  let headerBytes ← ofExcept (malformed temporary 0 header.encode)
  let file ← segmentsDirectory.createNew (.temporary segmentId)
    (.io "create temporary segment" temporary .unknown)
  writeAll file headerBytes (.io "write segment header" temporary .unknown)
  let written ← writeEpochGroup file temporary segmentHeaderLen epochs
  let (records, boundaries) ← ofExcept
    (tryFold (addBoundary temporary (·.endOffset)) ([], []) written)
  syncData file (.io "sync temporary segment" temporary .unknown)
  segmentsDirectory.rename (.temporary segmentId) (.log segmentId)
    (.io "publish data segment" canonical .unknown)
  segmentsDirectory.syncDirectory .unknown
  let unreleasedRecords ← ofOption (.corruption canonical 0 "segment record count does not fit u64")
    (toWord records.length)
  return ({
    id := segmentId
    file := file
    header := header
    headerBytes := headerBytes
    fileLen := groupEnd segmentHeaderLen written
    records := records
    uniqueStreams := (ExtTreeSet.ofList (records.map (·.streamId))).size
    unreleasedRecords := unreleasedRecords
    epochs := boundaries
    footer := none
    repairedTail := false }, written.map (WrittenEpoch.ids rootId))

/-- Counts the records of one written epoch as unreleased. -/
def addUnreleased (path : Artifact) (offset total : Nat) (written : WrittenEpoch) : Except Error Nat := do
  let count ← orError (.corruption path offset "record count does not fit u64")
    (toWord written.records.length)
  orError (.corruption path offset "unreleased record count overflow") (checkedAdd total count)

/-- Appends a group of epochs to an open segment. On an error, which poisons the root, the segment
in memory is not used again and is not returned. -/
def append (segment : Segment) (rootId : RootId) (epochs : List PreparedEpoch) (newStreams : Nat) :
    FsIo (Segment × List (List RecordId)) := do
  let uniqueStreams ← ofOption
    (.corruption segment.path segment.fileLen "segment stream count overflow")
    (checkedAdd segment.uniqueStreams newStreams)
  require (segment.footer = none)
    (.corruption segment.path segment.fileLen "cannot append to a physically sealed segment")
  observe (.io "seek active segment" segment.path .unknown)
  let written ← writeEpochGroup segment.file segment.path segment.fileLen epochs
  syncData segment.file (.io "sync append group" segment.path .unknown)
  let offset := groupEnd segment.fileLen written
  let unreleasedRecords ← ofExcept
    (tryFold (addUnreleased segment.path offset) segment.unreleasedRecords written)
  let (records, boundaries) ← ofExcept
    (tryFold (addBoundary segment.path fun _ => offset) (segment.records, segment.epochs)
      written)
  return ({ segment with
    fileLen := offset
    records := records
    uniqueStreams := uniqueStreams
    unreleasedRecords := unreleasedRecords
    epochs := boundaries }, written.map (WrittenEpoch.ids rootId))

/-- Counts the unreleased records of a recovered segment. -/
def refreshUnreleasedRecords (segment : Segment) : Except Error Segment := do
  let count ← orError (.corruption segment.path 0 "record count does not fit u64")
    (toWord (segment.records.countP fun record => !record.released))
  return { segment with unreleasedRecords := count }

/-- The footer of a segment as it stands. -/
def footerOf (segment : Segment) : Except Error SegmentFooter := do
  let segmentBytes ← orError
    (.corruption segment.path segment.fileLen "footer length overflow")
    (checkedAdd segment.fileLen segmentFooterLen)
  let epochCount ← orError
    (.corruption segment.path segment.fileLen "epoch count does not fit u64")
    (toWord segment.epochs.length)
  return {
    segmentId := segment.id
    segmentBytes := segmentBytes
    epochCount := epochCount
    segmentDigest := segmentDigest segment.headerBytes (segment.epochs.map (·.commit)) }

/-- Writes the footer of a segment, unless it has one. -/
def sealData (segment : Segment) : FsIo (Segment × SegmentFooter) :=
  match segment.footer with
  | some footer => result (segment, footer)
  | none => do
    let footer ← ofExcept segment.footerOf
    let bytes ← ofExcept (malformed segment.path segment.fileLen footer.encode)
    observe (.io "seek active segment for seal" segment.path .unknown)
    writeAll segment.file bytes (.io "write segment footer" segment.path .unknown)
    syncData segment.file (.io "sync sealed segment" segment.path .unknown)
    return ({ segment with fileLen := footer.segmentBytes, footer := some footer }, footer)

/-- An epoch ends after a number of records. -/
def hasCheckpointBoundary (segment : Segment) (recordCount : Nat) : Bool :=
  segment.epochs.any fun epoch => epoch.recordCount = recordCount

/-- The number of streams with records in a segment. -/
def uniqueStreamCount (segment : Segment) : Nat := segment.uniqueStreams

end Segment

/-! ### Scanning -/

/-- Reads the records of an epoch; `none` where the file ends before them. -/
def scanRecords (path : Artifact) (bytes : Bytes) (header : EpochHeader) :
    Nat → Nat → Nat → Except Error (Option (List StoredRecord × List Bytes × Nat))
  | 0, _, offset => .ok (some ([], [], offset))
  | count + 1, index, offset =>
    if bytes.length - offset < recordDescriptorLen then .ok none else do
      let encoded := slice bytes offset recordDescriptorLen
      let descriptor ← malformed path offset (RecordDescriptor.decode encoded)
      let metadataOffset ← orError (.corruption path offset "metadata offset overflow")
        (checkedAdd offset recordDescriptorLen)
      let payloadOffset ← orError (.corruption path offset "payload offset overflow")
        (checkedAdd metadataOffset descriptor.metadataLen)
      let finish ← orError (.corruption path offset "record end overflow")
        (checkedAdd payloadOffset descriptor.payloadLen)
      if bytes.length < finish then .ok none else do
        let sequence ← orError (.corruption path offset "record sequence overflows u64")
          (checkedAdd header.firstSequence index)
        let record : StoredRecord := {
          streamId := header.streamId
          sequence := sequence
          descriptorOffset := offset
          metadataOffset := metadataOffset
          metadataLen := descriptor.metadataLen
          metadataChecksum := descriptor.metadataChecksum
          payloadOffset := payloadOffset
          payloadLen := descriptor.payloadLen
          payloadChecksum := descriptor.payloadChecksum
          released := false }
        let rest ← scanRecords path bytes header count (index + 1) finish
        return rest.map fun (records, descriptors, last) =>
          (record :: records, encoded :: descriptors, last)

/-- The end of an epoch: its length and its commit against what was read. -/
def scanCommit (path : Artifact) (bytes : Bytes) (start : Nat) (headerBytes : Bytes)
    (header : EpochHeader) (records : List StoredRecord) (descriptors : List Bytes) (offset : Nat) :
    Except Error ScanEpoch := do
  ensure (offset - (start + epochHeaderLen) = header.recordsBytes)
    (.corruption path (saturatingAdd start 32) "epoch records_bytes does not match decoded records")
  if bytes.length - offset < epochCommitLen then .ok .incomplete else do
    let commitBytes := slice bytes offset epochCommitLen
    let commit ← malformed path offset (EpochCommit.decode commitBytes)
    let expectedBytes ← orError (.corruption path start "epoch length overflow")
      (do checkedAdd (← checkedAdd epochHeaderLen header.recordsBytes) epochCommitLen)
    ensure (commit.epochStart = start && commit.epochBytes = expectedBytes)
      (.corruption path offset "epoch commit boundary mismatch")
    ensure (commit.epochDigest = epochDigest headerBytes descriptors)
      (.corruption path (saturatingAdd offset 24) "epoch descriptor digest mismatch")
    let endOffset ← orError (.corruption path offset "epoch end overflow")
      (checkedAdd offset epochCommitLen)
    return .complete records commitBytes endOffset

/-- Reads the epoch at an offset. -/
def scanEpoch (path : Artifact) (bytes : Bytes) (start : Nat) : Except Error ScanEpoch := do
  let headerBytes := slice bytes start epochHeaderLen
  let header ← malformed path start (EpochHeader.decode headerBytes)
  let epochBytes ← orError (.corruption path start "epoch length overflow")
    (do checkedAdd (← checkedAdd epochHeaderLen header.recordsBytes) epochCommitLen)
  let epochEnd ← orError (.corruption path start "epoch end overflow")
    (checkedAdd start epochBytes)
  if bytes.length < epochEnd then .ok .incomplete else do
    let offset ← orError (.corruption path start "epoch header end overflow")
      (checkedAdd start epochHeaderLen)
    match ← scanRecords path bytes header header.recordCount 0 offset with
    | none => .ok .incomplete
    | some (records, descriptors, last) =>
      scanCommit path bytes start headerBytes header records descriptors last

/-- An incomplete tail may be cut: the segment is not sealed, an epoch is complete, and the records
of the checkpoint are among the complete ones. -/
def tailRepairAllowed (allowActiveTailRepair : Bool) (checkpointRecordCount : Option Nat)
    (completeEpochs : List EpochBoundary) : Bool :=
  allowActiveTailRepair && !completeEpochs.isEmpty &&
    checkpointRecordCount.all fun baseline =>
      completeEpochs.any fun epoch => epoch.recordCount = baseline

/-- Walks the epochs of a segment file. The first argument bounds the steps: every epoch takes some
bytes of the file. -/
def scanEpochs (path : Artifact) (bytes : Bytes) (allowActiveTailRepair : Bool)
    (checkpointRecordCount : Option Nat) :
    Nat → Nat → List StoredRecord → List EpochBoundary → Except Error Scanned
  | 0, _, records, epochs => .ok ⟨records, epochs, none, none⟩
  | fuel + 1, offset, records, epochs =>
    if bytes.length ≤ offset then .ok ⟨records, epochs, none, none⟩
    else if bytes.length - offset < epochHeaderLen then do
      ensure (tailRepairAllowed allowActiveTailRepair checkpointRecordCount epochs)
        (.corruption path offset "incomplete segment tail is not repairable")
      return ⟨records, epochs, none, some offset⟩
    else if slice bytes offset 8 = segmentFooterMagic then do
      ensure (bytes.length - offset = segmentFooterLen)
        (.corruption path offset "segment footer is not the final 48 bytes")
      let footer ← malformed path offset
        (SegmentFooter.decode (slice bytes offset epochHeaderLen))
      return ⟨records, epochs, some footer, none⟩
    else do
      match ← scanEpoch path bytes offset with
      | .complete epochRecords commit endOffset =>
        let all := records ++ epochRecords
        let recordCount ← orError
          (.corruption path offset "segment record count does not fit u64") (toWord all.length)
        scanEpochs path bytes allowActiveTailRepair checkpointRecordCount fuel endOffset all
          (epochs ++ [⟨recordCount, commit⟩])
      | .incomplete =>
        ensure (tailRepairAllowed allowActiveTailRepair checkpointRecordCount epochs)
          (.corruption path offset "incomplete first or sealed epoch is not repairable")
        return ⟨records, epochs, none, some offset⟩

/-- The sequences of a segment are contiguous in every stream: adds one record to the last sequence
of each stream. -/
def followSequence (path : Artifact) (last : Highwaters) (record : StoredRecord) :
    Except Error Highwaters := do
  match last[record.streamId]? with
  | none => return last.insert record.streamId record.sequence
  | some previous =>
    let expected ← orError (.corruption path record.descriptorOffset
      "record follows an exhausted stream sequence") (checkedAdd previous 1)
    let sequence := record.sequence
    ensure (sequence = expected) (.corruption path record.descriptorOffset
      s!"stream sequence {sequence} follows {previous} inside one segment")
    return last.insert record.streamId record.sequence

/-- The footer of a scanned segment against the file. -/
def validateFooter (path : Artifact) (segmentId fileLen : Nat) (headerBytes : Bytes)
    (epochs : List EpochBoundary) (footer : SegmentFooter) : Except Error Unit := do
  ensure (footer.segmentId = segmentId)
    (.corruption path (fileLen - segmentFooterLen + 8) "footer segment ID does not match header")
  ensure (footer.segmentBytes = fileLen)
    (.corruption path (fileLen - segmentFooterLen + 16) "footer segment length does not match file")
  let epochCount ← orError
    (.corruption path fileLen "segment epoch count does not fit u64") (toWord epochs.length)
  ensure (footer.epochCount = epochCount)
    (.corruption path (fileLen - segmentFooterLen + 24) "footer epoch count does not match segment")
  ensure (footer.segmentDigest = segmentDigest headerBytes (epochs.map (·.commit)))
    (.corruption path (fileLen - segmentFooterLen + 32) "footer segment digest mismatch")

/-- The checks of a scanned segment; returns the number of its streams. -/
def validateScanned (path : Artifact) (segmentId fileLen : Nat) (headerBytes : Bytes)
    (scanned : Scanned) : Except Error Nat := do
  ensure (scanned.epochs ≠ [])
    (.corruption path segmentHeaderLen "canonical segment contains no complete epoch")
  let sequences ← tryFold (followSequence path) ∅ scanned.records
  let _ ← tryMap (validateFooter path segmentId fileLen headerBytes scanned.epochs)
    scanned.footer.toList
  return sequences.size

/-- Cuts an incomplete tail. -/
def repairTail (inode : Nat) (path : Artifact) : Option Nat → FsIo Unit
  | none => result ()
  | some length => do
    setLen inode length (.io "repair incomplete segment tail" path .unknown)
    syncData inode (.io "repair incomplete segment tail" path .unknown)

/-- The header of a segment file, checked against the root and the file name. -/
def scanHeader (path : Artifact) (expectedRoot : RootId) (expectedSegmentId : Nat)
    (headerBytes : Bytes) : Except Error SegmentHeader := do
  let header ← malformed path 0 (SegmentHeader.decode headerBytes)
  ensure (header.rootId = expectedRoot)
    (.corruption path 8 "segment root ID does not match ROOT")
  ensure (header.segmentId = expectedSegmentId)
    (.corruption path 24 "segment ID does not match canonical file name")
  return header

/-- Reads a segment back from its file. -/
def Segment.scan (expectedRoot : RootId) (expectedSegmentId : Nat) (allowActiveTailRepair : Bool)
    (checkpointRecordCount : Option Nat) : FsIo Segment := do
  let path : Artifact := .segment (.log expectedSegmentId)
  let fs ← read
  let file ← ofOption (.io "open data segment" path .notApplicable)
    (segmentsDirectory.lookup (.log expectedSegmentId) fs)
  observe (.io "open data segment" path .notApplicable)
  observe (.io "read segment metadata" path .notApplicable)
  let bytes := fs.content file
  require (segmentHeaderLen ≤ bytes.length)
    (.corruption path 0 "segment is shorter than its authoritative header")
  observe (.io "read file" path .notApplicable)
  let headerBytes := slice bytes 0 segmentHeaderLen
  let header ← ofExcept (scanHeader path expectedRoot expectedSegmentId headerBytes)
  let scanned ← ofExcept (scanEpochs path bytes allowActiveTailRepair checkpointRecordCount
    bytes.length segmentHeaderLen [] [])
  repairTail file path scanned.repair
  let fileLen := scanned.repair.getD bytes.length
  let uniqueStreams ← ofExcept (validateScanned path expectedSegmentId fileLen headerBytes scanned)
  observe (.io "seek data segment" path .notApplicable)
  let unreleasedRecords ← ofOption (.corruption path 0 "segment record count does not fit u64")
    (toWord scanned.records.length)
  return {
    id := expectedSegmentId
    file := file
    header := header
    headerBytes := headerBytes
    fileLen := fileLen
    records := scanned.records
    uniqueStreams := uniqueStreams
    unreleasedRecords := unreleasedRecords
    epochs := scanned.epochs
    footer := scanned.footer
    repairedTail := scanned.repair.isSome }

/-- The header of the file of a removed segment. -/
def validateRemovedSegmentHeader (expectedRoot : RootId) (expectedSegmentId : Nat) : FsIo Unit := do
  let path : Artifact := .segment (.log expectedSegmentId)
  let fs ← read
  let file ← ofOption (.io "open removed segment" path .notApplicable)
    (segmentsDirectory.lookup (.log expectedSegmentId) fs)
  observe (.io "open removed segment" path .notApplicable)
  observe (.io "read removed segment metadata" path .notApplicable)
  let bytes := fs.content file
  require (segmentHeaderLen ≤ bytes.length)
    (.corruption path 0 "removed segment remnant has incomplete header")
  observe (.io "read file" path .notApplicable)
  let header ← ofExcept (malformed path 0 (SegmentHeader.decode (slice bytes 0 segmentHeaderLen)))
  require (header.rootId = expectedRoot && header.segmentId = expectedSegmentId)
    (.corruption path 0 "removed segment remnant identity mismatch")

/-! ### Reading records -/

/-- The end of a record, from its canonical layout. -/
def recordEnd (path : Artifact) (record : StoredRecord) : Except Error Nat := do
  let metadataOffset ← orError
    (.corruption path record.descriptorOffset "metadata offset overflow")
    (checkedAdd record.descriptorOffset recordDescriptorLen)
  ensure (metadataOffset = record.metadataOffset)
    (.corruption path record.descriptorOffset "stored metadata offset is not canonical")
  let payloadOffset ← orError
    (.corruption path record.metadataOffset "payload offset overflow")
    (checkedAdd metadataOffset record.metadataLen)
  ensure (payloadOffset = record.payloadOffset)
    (.corruption path record.metadataOffset "stored payload offset is not canonical")
  orError (.corruption path record.payloadOffset "record end overflow")
    (checkedAdd payloadOffset record.payloadLen)

/-- Extends a span over the records that follow it without a gap, within a bound. Returns how many
records were added and the end of the span. -/
def extendSpan (path : Artifact) (spanStart maxBytes : Nat) :
    Nat → Nat → List StoredRecord → Except Error (Nat × Nat)
  | count, spanEnd, [] => .ok (count, spanEnd)
  | count, spanEnd, record :: rest =>
    if record.descriptorOffset ≠ spanEnd then .ok (count, spanEnd) else do
      let nextEnd ← recordEnd path record
      let projected ← orError (.corruption path spanStart "coalesced record span underflow")
        (checkedSub nextEnd spanStart)
      if maxBytes < projected then .ok (count, spanEnd) else
        extendSpan path spanStart maxBytes (count + 1) nextEnd rest

/-- The longest span from the first record. Returns how many records follow the first in it and its
end. -/
def contiguousRecordSpan (path : Artifact) (first : StoredRecord) (rest : List StoredRecord)
    (maxBytes : Nat) : Except Error (Nat × Nat) := do
  let spanEnd ← recordEnd path first
  extendSpan path first.descriptorOffset maxBytes 0 spanEnd rest

/-- The place of a field in a span. -/
def spanRange (path : Artifact) (spanStart spanLen offset length : Nat) (name : String) :
    Except Error Nat := do
  let relative ← orError (.corruption path offset s!"{name} precedes read span")
    (checkedSub offset spanStart)
  let finish ← orError (.corruption path offset s!"{name} range overflow")
    (checkedAdd relative length)
  ensure (finish ≤ spanLen) (.corruption path offset s!"{name} exceeds read span")
  return relative

/-- Reads one record from a span and checks it against the index. -/
def readRecord (path : Artifact) (rootId : RootId) (spanStart : Nat) (bytes : Bytes)
    (record : StoredRecord) : Except Error PendingRecord := do
  let descriptorStart ← spanRange path spanStart bytes.length record.descriptorOffset
    recordDescriptorLen "record descriptor"
  let descriptor ← malformed path record.descriptorOffset
    (RecordDescriptor.decode (slice bytes descriptorStart recordDescriptorLen))
  ensure (descriptor.metadataLen = record.metadataLen &&
      descriptor.payloadLen = record.payloadLen &&
      descriptor.metadataChecksum = record.metadataChecksum &&
      descriptor.payloadChecksum = record.payloadChecksum)
    (.corruption path record.descriptorOffset "record descriptor changed after recovery")
  let metadataStart ← spanRange path spanStart bytes.length record.metadataOffset record.metadataLen
    "record metadata"
  let payloadStart ← spanRange path spanStart bytes.length record.payloadOffset record.payloadLen
    "record payload"
  let metadata := slice bytes metadataStart record.metadataLen
  let payload := slice bytes payloadStart record.payloadLen
  ensure (checksum metadata = record.metadataChecksum)
    (.corruption path record.metadataOffset "record metadata checksum mismatch")
  ensure (checksum payload = record.payloadChecksum)
    (.corruption path record.payloadOffset "record payload checksum mismatch")
  return { id := ⟨rootId, record.streamId, record.sequence⟩, metadata, payload }

/-- Reads the bytes of a span. -/
def readSpan (file : Nat) (path : Artifact) (spanStart spanLen : Nat) : FsIo Bytes := do
  let fs ← read
  require (spanLen = 0 || spanStart + spanLen ≤ (fs.content file).length)
    (.io "read file" path .notApplicable)
  observe (.io "read file" path .notApplicable)
  return slice (fs.content file) spanStart spanLen

/-- Reads records span by span. The first argument bounds the spans: each takes a record. -/
def readSpans (file : Nat) (path : Artifact) (rootId : RootId) :
    Nat → List StoredRecord → FsIo (List PendingRecord)
  | 0, _ => result []
  | _ + 1, [] => result []
  | fuel + 1, first :: rest => do
    let (more, spanEnd) ← ofExcept (contiguousRecordSpan path first rest maxCoalescedReadBytes)
    let spanStart := first.descriptorOffset
    let spanLen ← ofOption (.corruption path spanStart "record span underflow")
      (checkedSub spanEnd spanStart)
    let bytes ← readSpan file path spanStart spanLen
    let found ← ofExcept (tryMap (readRecord path rootId spanStart bytes)
      (first :: rest.take more))
    let others ← readSpans file path rootId fuel (rest.drop more)
    return found ++ others

/-- Reads records of a segment. -/
def Segment.readRecords (segment : Segment) (rootId : RootId) (records : List StoredRecord) :
    FsIo (List PendingRecord) :=
  readSpans segment.file segment.path rootId records.length records

end

end Camus
