/-
**A scan never leaves its file.**

The scan of a segment file once more, with every read, every unchecked subtraction and the end of
the loop guarded.

* `guardedScanEpochs`, `guardedValidateScanned` — the scanner with its unchecked operations.
* `guardedScanEpochs_safe`, `guardedValidateScanned_safe` — on every file they do what the plain
  scanner does, so none of the guards is ever hit.
* `scan_accepts_grammar` — **the scan is safe and accepts exactly the segments of the grammar**.
-/

import Camus.Lib.Guarded
import Camus.Storage.ScanSpec
import Camus.Storage.SegmentGrammar

set_option linter.unusedSectionVars false

namespace Camus

open Codec Checked Disk FaultIo Safety Result

variable {allow : Bool} {headerBytes : Bytes} {epochs : List EpochBoundary}
  {start offset fileLen segmentId : Nat} {baseline : Option Nat}

section

variable [Hasher]

/-! ### The scanner with its unchecked operations -/

/-- The descriptor loop of `scan_epoch`. -/
def guardedScanRecords (path : Artifact) (bytes : Bytes) (header : EpochHeader) :
    Nat → Nat → Nat → Guarded Error (Option (List StoredRecord × List Bytes × Nat))
  | 0, _, offset => .ok (some ([], [], offset))
  | count + 1, index, offset =>
    -- The source subtracts with saturation here.
    if bytes.length - offset < recordDescriptorLen then .ok none else do
      let encoded ← readAt bytes offset recordDescriptorLen
      let descriptor ← permit (malformed path offset (RecordDescriptor.decode encoded))
      let metadataOffset ← permit (orError (.corruption path offset "metadata offset overflow")
        (checkedAdd offset recordDescriptorLen))
      let payloadOffset ← permit (orError (.corruption path offset "payload offset overflow")
        (checkedAdd metadataOffset descriptor.metadataLen))
      let finish ← permit (orError (.corruption path offset "record end overflow")
        (checkedAdd payloadOffset descriptor.payloadLen))
      if bytes.length < finish then .ok none else do
        let sequence ← permit (orError (.corruption path offset "record sequence overflows u64")
          (checkedAdd header.firstSequence index))
        let record : StoredRecord := {
          streamId := header.streamId
          sequence := sequence
          descriptorOffset := offset
          metadataOffset := metadataOffset
          metadataLen := descriptor.metadataLen
          metadataChecksum := descriptor.metadataChecksum
          payloadOffset := payloadOffset
          payloadLen := descriptor.payloadLen
          payloadChecksum := descriptor.payloadChecksum
          released := false }
        let rest ← guardedScanRecords path bytes header count (index + 1) finish
        return rest.map fun (records, descriptors, last) =>
          (record :: records, encoded :: descriptors, last)

/-- The end of `scan_epoch`. -/
def guardedScanCommit (path : Artifact) (bytes : Bytes) (start recordsStart : Nat)
    (headerBytes : Bytes) (header : EpochHeader) (records : List StoredRecord)
    (descriptors : List Bytes) (offset : Nat) : Guarded Error ScanEpoch := do
  let recordsBytes ← sub offset recordsStart
  permit (ensure (recordsBytes = header.recordsBytes)
    (.corruption path (saturatingAdd start 32) "epoch records_bytes does not match decoded records"))
  if bytes.length - offset < epochCommitLen then .ok .incomplete else do
    let commitBytes ← readAt bytes offset epochCommitLen
    let commit ← permit (malformed path offset (EpochCommit.decode commitBytes))
    let expectedBytes ← permit (orError (.corruption path start "epoch length overflow")
      (do checkedAdd (← checkedAdd epochHeaderLen header.recordsBytes) epochCommitLen))
    permit (ensure (commit.epochStart = start && commit.epochBytes = expectedBytes)
      (.corruption path offset "epoch commit boundary mismatch"))
    permit (ensure (commit.epochDigest = epochDigest headerBytes descriptors)
      (.corruption path (saturatingAdd offset 24) "epoch descriptor digest mismatch"))
    let endOffset ← permit (orError (.corruption path offset "epoch end overflow")
      (checkedAdd offset epochCommitLen))
    return .complete records commitBytes endOffset

/-- `scan_epoch`. -/
def guardedScanEpoch (path : Artifact) (bytes : Bytes) (start : Nat) : Guarded Error ScanEpoch := do
  let headerBytes ← readAt bytes start epochHeaderLen
  let header ← permit (malformed path start (EpochHeader.decode headerBytes))
  let epochBytes ← permit (orError (.corruption path start "epoch length overflow")
    (do checkedAdd (← checkedAdd epochHeaderLen header.recordsBytes) epochCommitLen))
  let epochEnd ← permit (orError (.corruption path start "epoch end overflow")
    (checkedAdd start epochBytes))
  if bytes.length < epochEnd then .ok .incomplete else do
    -- The index vectors are reserved for the records of the epoch, whose descriptors lie in the file.
    reserve header.recordCount recordDescriptorLen bytes.length
    let offset ← permit (orError (.corruption path start "epoch header end overflow")
      (checkedAdd start epochHeaderLen))
    match ← guardedScanRecords path bytes header header.recordCount 0 offset with
    | none => .ok .incomplete
    | some (records, descriptors, last) =>
      guardedScanCommit path bytes start offset headerBytes header records descriptors last

/-- The epoch loop of `Segment::scan`. It does not end by itself if the fuel is not enough. -/
def guardedScanEpochs (path : Artifact) (bytes : Bytes) (allowActiveTailRepair : Bool)
    (checkpointRecordCount : Option Nat) :
    Nat → Nat → List StoredRecord → List EpochBoundary → Guarded Error Scanned
  | 0, offset, records, epochs =>
    if bytes.length ≤ offset then .ok ⟨records, epochs, none, none⟩ else fault .endless
  | fuel + 1, offset, records, epochs =>
    if bytes.length ≤ offset then .ok ⟨records, epochs, none, none⟩ else do
      let remaining ← sub bytes.length offset
      if remaining < epochHeaderLen then do
        permit (ensure (tailRepairAllowed allowActiveTailRepair checkpointRecordCount epochs)
          (.corruption path offset "incomplete segment tail is not repairable"))
        return ⟨records, epochs, none, some offset⟩
      else do
        let start ← readAt bytes offset epochHeaderLen
        if slice start 0 8 = segmentFooterMagic then do
          permit (ensure (remaining = segmentFooterLen)
            (.corruption path offset "segment footer is not the final 48 bytes"))
          let footer ← permit (malformed path offset (SegmentFooter.decode start))
          return ⟨records, epochs, some footer, none⟩
        else do
          match ← guardedScanEpoch path bytes offset with
          | .complete epochRecords commit endOffset =>
            let all := records ++ epochRecords
            let recordCount ← permit (orError
              (.corruption path offset "segment record count does not fit u64") (toWord all.length))
            guardedScanEpochs path bytes allowActiveTailRepair checkpointRecordCount fuel endOffset all
              (epochs ++ [⟨recordCount, commit⟩])
          | .incomplete =>
            permit (ensure
              (tailRepairAllowed allowActiveTailRepair checkpointRecordCount epochs)
              (.corruption path offset "incomplete first or sealed epoch is not repairable"))
            return ⟨records, epochs, none, some offset⟩

/-- A check of the footer, which names its place in the file when it fails. -/
def guardedFooterCheck (path : Artifact) (fileLen place : Nat) (message : String) (holds : Bool) :
    Guarded Error Unit :=
  if holds then .ok () else do
    let footer ← sub fileLen segmentFooterLen
    let field ← add footer place
    permit (.error (.corruption path field message))

/-- The checks of the footer of `Segment::scan`. -/
def guardedValidateFooter (path : Artifact) (segmentId fileLen : Nat) (headerBytes : Bytes)
    (epochs : List EpochBoundary) (footer : SegmentFooter) : Guarded Error Unit := do
  guardedFooterCheck path fileLen 8 "footer segment ID does not match header"
    (footer.segmentId = segmentId)
  guardedFooterCheck path fileLen 16 "footer segment length does not match file"
    (footer.segmentBytes = fileLen)
  let epochCount ← permit (orError
    (.corruption path fileLen "segment epoch count does not fit u64") (toWord epochs.length))
  guardedFooterCheck path fileLen 24 "footer epoch count does not match segment"
    (footer.epochCount = epochCount)
  guardedFooterCheck path fileLen 32 "footer segment digest mismatch"
    (footer.segmentDigest = segmentDigest headerBytes (epochs.map (·.commit)))

/-- The checks of `Segment::scan` after the loop. -/
def guardedValidateScanned (path : Artifact) (segmentId fileLen : Nat) (headerBytes : Bytes)
    (scanned : Scanned) : Guarded Error Nat := do
  permit (ensure (scanned.epochs ≠ [])
    (.corruption path segmentHeaderLen "canonical segment contains no complete epoch"))
  let sequences ← permit (tryFold (followSequence path) ∅ scanned.records)
  let _ ← tryMap (guardedValidateFooter path segmentId fileLen headerBytes scanned.epochs)
    scanned.footer.toList
  return sequences.size

/-! ### No guard is hit -/

variable {path : Artifact} {bytes : Bytes}

theorem guardedScanRecords_safe (header : EpochHeader) (count index offset : Nat) :
    guardedScanRecords path bytes header count index offset =
      permit (scanRecords path bytes header count index offset) := by
  induction count generalizing index offset with
  | zero => rfl
  | succ count ih =>
    unfold guardedScanRecords scanRecords
    by_cases short : bytes.length - offset < recordDescriptorLen
    · rw [if_pos short, if_pos short]
      rfl
    have inside : offset + recordDescriptorLen ≤ bytes.length := by
      unfold recordDescriptorLen at short ⊢
      omega
    rw [if_neg short, if_neg short, readAt_of_le inside, ok_bind]
    simp only [permit_bind, permit_ite, permit_ok, permit_pure, ih]

theorem guardedScanCommit_safe {recordsStart : Nat} (headerBytes : Bytes) (header : EpochHeader)
    (records : List StoredRecord) (descriptors : List Bytes)
    (starts : start + epochHeaderLen = recordsStart) (after : recordsStart ≤ offset) :
    guardedScanCommit path bytes start recordsStart headerBytes header records descriptors offset =
      permit (scanCommit path bytes start headerBytes header records descriptors offset) := by
  unfold guardedScanCommit scanCommit
  rw [sub_of_le after, ok_bind, starts, permit_bind]
  refine congrArg (permit _ >>= ·) (funext fun _ => ?_)
  by_cases short : bytes.length - offset < epochCommitLen
  · rw [if_pos short, if_pos short]
    rfl
  have inside : offset + epochCommitLen ≤ bytes.length := by
    unfold epochCommitLen at short ⊢
    omega
  rw [if_neg short, if_neg short, readAt_of_le inside, ok_bind]
  simp only [permit_bind, permit_pure]

theorem guardedScanEpoch_safe (inside : start + epochHeaderLen ≤ bytes.length) :
    guardedScanEpoch path bytes start = permit (scanEpoch path bytes start) := by
  unfold guardedScanEpoch scanEpoch
  rw [readAt_of_le inside, ok_bind]
  refine bind_permit fun header decoded => bind_permit fun epochBytes isLength =>
    bind_permit fun epochEnd isEnd => ?_
  by_cases long : bytes.length < epochEnd
  · rw [if_pos long, if_pos long]
    rfl
  have room : header.recordCount * recordDescriptorLen ≤ bytes.length := by
    obtain ⟨-, -, -, descriptors⟩ :=
      EpochHeader.validate_eq_ok.mp (EpochHeader.validate_of_decode (mapError_eq_ok.mp decoded))
    simp only [orError_eq_ok, Option.bind_eq_bind, Option.bind_eq_some_iff,
      checkedAdd_eq_some] at isLength isEnd
    obtain ⟨_, ⟨rfl, -⟩, rfl, -⟩ := isLength
    omega
  rw [if_neg long, if_neg long, reserve_of_le room, ok_bind]
  refine bind_permit fun offset isOffset => ?_
  rw [guardedScanRecords_safe]
  refine bind_permit fun found isFound => ?_
  cases found with
  | none => rfl
  | some result =>
    simp only [orError_eq_ok, checkedAdd_eq_some] at isOffset
    exact guardedScanCommit_safe _ _ _ _ isOffset.1 (Nat.le_of_add_right_le (scanRecords_long isFound))

/-- **The epoch loop reads inside the file, subtracts nothing below zero and ends.** -/
theorem guardedScanEpochs_safe {fuel : Nat} {records : List StoredRecord}
    (enough : bytes.length - offset ≤ fuel) :
    guardedScanEpochs path bytes allow baseline fuel offset records epochs =
      permit (scanEpochs path bytes allow baseline fuel offset records epochs) := by
  induction fuel generalizing offset records epochs with
  | zero =>
    unfold guardedScanEpochs scanEpochs
    rw [if_pos (by omega)]
    rfl
  | succ fuel ih =>
    unfold guardedScanEpochs scanEpochs
    by_cases atEnd : bytes.length ≤ offset
    · rw [if_pos atEnd, if_pos atEnd]
      rfl
    rw [if_neg atEnd, if_neg atEnd, sub_of_le (by omega), ok_bind]
    by_cases short : bytes.length - offset < epochHeaderLen
    · rw [if_pos short, if_pos short, permit_bind]
      rfl
    have inside : offset + epochHeaderLen ≤ bytes.length := by
      unfold epochHeaderLen at short ⊢
      omega
    have magic : slice (slice bytes offset epochHeaderLen) 0 8 = slice bytes offset 8 :=
      slice_slice (by decide)
    rw [if_neg short, if_neg short, readAt_of_le inside, ok_bind, magic]
    by_cases isFooter : slice bytes offset 8 = segmentFooterMagic
    · rw [if_pos isFooter, if_pos isFooter]
      simp only [permit_bind, permit_pure]
    rw [if_neg isFooter, if_neg isFooter, guardedScanEpoch_safe inside]
    refine bind_permit fun step isStep => ?_
    cases step with
    | incomplete => exact bind_permit fun _ _ => rfl
    | complete epochRecords commit endOffset =>
      refine bind_permit fun count isCount => ih ?_
      have grows := (scanEpoch_long isStep).1
      unfold epochHeaderLen at grows
      omega

theorem guardedFooterCheck_safe {place : Nat} {message : String} {holds : Bool}
    (long : segmentFooterLen ≤ fileLen) (small : place ≤ segmentFooterLen)
    (fits : fileLen ≤ wordMax) :
    guardedFooterCheck path fileLen place message holds =
      permit (ensure holds (.corruption path (fileLen - segmentFooterLen + place) message)) := by
  cases holds with
  | true => rfl
  | false =>
    unfold guardedFooterCheck
    rw [if_neg (by decide), sub_of_le long, ok_bind, add_of_le (by omega), ok_bind]
    rfl

/-- The checks of a footer name places inside the file. -/
theorem guardedValidateFooter_safe {footer : SegmentFooter} (long : segmentFooterLen ≤ fileLen)
    (fits : fileLen ≤ wordMax) :
    guardedValidateFooter path segmentId fileLen headerBytes epochs footer =
      permit (validateFooter path segmentId fileLen headerBytes epochs footer) := by
  unfold guardedValidateFooter validateFooter
  have check : ∀ (place : Nat) (message : String) (holds : Bool), place ≤ segmentFooterLen →
      guardedFooterCheck path fileLen place message holds = permit (ensure holds
        (.corruption path (fileLen - segmentFooterLen + place) message)) :=
    fun _ _ _ small => guardedFooterCheck_safe long small fits
  simp only [permit_bind, check 8 _ _ (by decide), check 16 _ _ (by decide), check 24 _ _ (by decide),
    check 32 _ _ (by decide)]

theorem guardedValidateScanned_safe {scanned : Scanned} (long : segmentFooterLen ≤ fileLen)
    (fits : fileLen ≤ wordMax) :
    guardedValidateScanned path segmentId fileLen headerBytes scanned =
      permit (validateScanned path segmentId fileLen headerBytes scanned) := by
  have footers : tryMap (guardedValidateFooter path segmentId fileLen headerBytes
      scanned.epochs) scanned.footer.toList = permit (tryMap (validateFooter path segmentId
        fileLen headerBytes scanned.epochs) scanned.footer.toList) := by
    cases scanned.footer with
    | none => rfl
    | some footer =>
      simp only [Option.toList_some, tryMap, guardedValidateFooter_safe long fits, permit_bind]
      rfl
  unfold guardedValidateScanned validateScanned
  simp only [footers, permit_bind, permit_pure]

/-- **Scanning accepts exactly the segment grammar.** For every content of the file of a segment:

* the scan ends, reads inside the file and computes without overflow, whatever the bytes are;
* it returns a segment without repair exactly when the file is a segment of the grammar, and then the
  records are those its descriptors describe, in their order. -/
theorem scan_accepts_grammar {fs : Fs} {rootId : RootId} {segmentId file : Nat} {allow : Bool}
    {baseline : Option Nat} (found : segmentsDirectory.lookup (.log segmentId) fs = some file)
    (fits : (fs.content file).length ≤ wordMax) :
    (guardedScanEpochs path (fs.content file) allow baseline (fs.content file).length
        segmentHeaderLen [] [] =
      permit (scanEpochs path (fs.content file) allow baseline (fs.content file).length
        segmentHeaderLen [] [])) ∧
    (∀ scanned headerBytes, segmentHeaderLen ≤ (fs.content file).length →
      scanEpochs path (fs.content file) allow baseline (fs.content file).length
        segmentHeaderLen [] [] = .ok scanned →
      guardedValidateScanned path segmentId (scanned.repair.getD (fs.content file).length)
          headerBytes scanned =
        permit (validateScanned path segmentId (scanned.repair.getD (fs.content file).length)
          headerBytes scanned)) ∧
    ∀ segment final, (Completes (Segment.scan rootId segmentId allow baseline) fs segment final ∧
        segment.repairedTail = false) ↔
      ∃ text : SegmentText, text.Describes rootId segmentId (fs.content file) ∧
        segment = text.segment (fs.content file) segmentId file ∧ final = fs := by
  refine ⟨guardedScanEpochs_safe (Nat.sub_le _ _), fun scanned headerBytes inside isScanned => ?_,
    fun segment final => completes_scan_iff found fits⟩
  obtain ⟨long, short⟩ := scanEpochs_long (by simp) inside isScanned
  exact guardedValidateScanned_safe (Nat.le_of_add_right_le long) (short.trans fits)

end

theorem scan_accepts_grammar_sample : ∃ text : SegmentText,
    @SegmentText.Describes Hasher.fnv text .sample 0
      (@SegmentImage.bytes Hasher.fnv .sample 0 .sample) ∧
    @SegmentImage.stored Hasher.fnv .sample = text.records := by
  have completes := @completes_scan_whole Hasher.fnv
    (Fs.sample (@SegmentImage.bytes Hasher.fnv .sample 0 .sample))
    .sample 0 0 false none .sample SegmentImage.sample_valid (by decide +kernel) rfl
  obtain ⟨-, -, exactly⟩ := @scan_accepts_grammar Hasher.fnv (.segment (.log 0))
    (Fs.sample (@SegmentImage.bytes Hasher.fnv .sample 0 .sample))
    .sample 0 0 false none (by decide +kernel) (by decide +kernel)
  obtain ⟨text, describes, same, -⟩ := (exactly _ _).mp ⟨completes, rfl⟩
  exact ⟨text, describes, congrArg Segment.records same⟩

end Camus
