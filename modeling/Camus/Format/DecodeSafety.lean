/-
**Decoders never leave their input.**

The decoders of frames and checkpoints once more, with every read at an offset, every unchecked
addition and multiplication and every reservation guarded. On every input they do what the plain
decoders do (`guardedDecodeFrameHeader_safe`, `guardedDecodeFrame_safe`,
`guardedDecodeCheckpoint_safe`), so that no guard is ever hit. The checks of decoded values use checked
arithmetic only and are taken as they are.
-/

import Camus.Format.Canonical
import Camus.Lib.Guarded

namespace Camus

open Codec Checked Safety Result Std

variable {bytes body : Bytes}

/-! ### Fields -/

/-- Two words of a table entry. -/
def pairAt {α : Type} (build : Nat → Nat → α) (bytes : Bytes) (entry : Nat) : Guarded String α := do
  let first ← wordAt bytes entry
  let next ← add entry 8
  let second ← wordAt bytes next
  return build first second

theorem pairAt_of_le {α : Type} {build : Nat → Nat → α} {entry : Nat}
    (fits : bytes.length ≤ wordMax) (inside : entry + 16 ≤ bytes.length) :
    pairAt build bytes entry = .ok (build (readWord bytes entry) (readWord bytes (entry + 8))) := by
  unfold pairAt
  rw [wordAt_of_le (by omega), ok_bind, add_of_le (by omega), ok_bind, wordAt_of_le (by omega), ok_bind]
  rfl

section

variable [Hasher]

/-- The checksum of a structure, at the offset where its other bytes end. -/
def guardedChecksum (bytes : Bytes) (offset : Nat) : Guarded String Bool := do
  let stored ← wordAt bytes offset
  let covered ← readAt bytes 0 offset
  return stored = checksum covered

theorem guardedChecksum_of_le {offset : Nat} (inside : offset + 8 ≤ bytes.length) :
    guardedChecksum bytes offset = .ok (checksumMatches bytes offset) := by
  unfold guardedChecksum
  rw [wordAt_of_le inside, ok_bind, readAt_of_le (by omega), ok_bind]
  rfl

end

/-! ### Bodies of frames -/

/-- The `Release` branch of `ManifestBody::decode`. -/
def guardedDecodeRelease (bytes : Bytes) : Guarded String ManifestBody := do
  permit (ensure (24 ≤ bytes.length) "Release body is shorter than 24 bytes")
  let releasedCount ← wordAt bytes 8
  let rangeCount ← wordAt bytes 16
  permit (ensure (releasedCount ≠ 0 && rangeCount ≠ 0)
    "Release counts must both be greater than zero")
  let expected ← permit (checkedLen 24 rangeCount 16 "Release body")
  permit (ensure (expected = bytes.length) "Release body length mismatch")
  reserve rangeCount 16 (bytes.length - 24)
  let ranges ← tableAt 16 (pairAt SequenceRange.mk) bytes 24 rangeCount
  let streamId ← wordAt bytes 0
  let body : ReleaseBody := { streamId := Fin.ofNat _ streamId, ranges := ranges }
  let actual ← permit body.releasedCount
  permit (ensure (actual = releasedCount) "Release released_count mismatch")
  return .release body

/-- The `SegmentSealed` branch. -/
def guardedDecodeSealed (bytes : Bytes) : Guarded String ManifestBody := do
  permit (ensure (bytes.length = 32) "SegmentSealed body must be exactly 32 bytes")
  let segmentId ← wordAt bytes 0
  let segmentBytes ← wordAt bytes 8
  let epochCount ← wordAt bytes 16
  let segmentDigest ← wordAt bytes 24
  let body : SegmentSealedBody := ⟨segmentId, segmentBytes, epochCount, segmentDigest⟩
  permit (ensure (body.segmentId ≠ wordMax && body.epochCount ≠ 0)
    "invalid SegmentSealed body")
  return .segmentSealed body

/-- The `SegmentRemoved` branch. -/
def guardedDecodeRemoved (bytes : Bytes) : Guarded String ManifestBody := do
  permit (ensure (16 ≤ bytes.length) "SegmentRemoved body is shorter than 16 bytes")
  let segmentId ← wordAt bytes 0
  permit (ensure (segmentId ≠ wordMax) "invalid SegmentRemoved segment ID")
  let count ← wordAt bytes 8
  let expected ← permit (checkedLen 16 count 16 "SegmentRemoved body")
  permit (ensure (expected = bytes.length) "SegmentRemoved body length mismatch")
  reserve count 16 (bytes.length - 16)
  let highwaters ← tableAt 16 (pairAt fun streamId sequence => ⟨Fin.ofNat _ streamId, sequence⟩)
    bytes 16 count
  permit (validateHighwaters highwaters)
  return .segmentRemoved { segmentId := segmentId, highwaters := highwaters }

/-- `ManifestBody::decode`. -/
def guardedDecodeManifestBody (kind : Nat) (bytes : Bytes) : Guarded String ManifestBody :=
  if kind = releaseKind then guardedDecodeRelease bytes
  else if kind = segmentSealedKind then guardedDecodeSealed bytes
  else if kind = segmentRemovedKind then guardedDecodeRemoved bytes
  else permit (.error "unknown manifest frame kind")

theorem guardedDecodeRelease_safe (fits : bytes.length ≤ wordMax) :
    guardedDecodeRelease bytes = permit (ManifestBody.decodeRelease bytes) := by
  unfold guardedDecodeRelease ManifestBody.decodeRelease
  refine bind_permit_unit fun long => ?_
  have long : 24 ≤ bytes.length := of_decide_eq_true (ensure_eq_ok.mp long)
  rw [wordAt_of_le (by omega), ok_bind, wordAt_of_le (by omega), ok_bind]
  refine bind_permit_unit fun _ => bind_permit fun expected isLength => bind_permit_unit fun same => ?_
  have room : 24 + readWord bytes 16 * 16 ≤ bytes.length := by
    have equal : expected = bytes.length := of_decide_eq_true (ensure_eq_ok.mp same)
    have length := (ManifestBody.checkedLen_eq_ok.mp isLength).1
    omega
  have ranges : (tableAt 16 (pairAt SequenceRange.mk) bytes 24 (readWord bytes 16)) =
      .ok (readEntries 16 SequenceRange.readAt bytes 24 (readWord bytes 16)) :=
    tableAt_of_le room fits fun entry inside => pairAt_of_le fits inside
  rw [reserve_of_le (by omega), ok_bind, ranges, ok_bind, wordAt_of_le (by omega), ok_bind]
  exact bind_permit fun actual _ => bind_permit_unit fun _ => rfl

theorem guardedDecodeSealed_safe (bytes : Bytes) :
    guardedDecodeSealed bytes = permit (ManifestBody.decodeSealed bytes) := by
  unfold guardedDecodeSealed ManifestBody.decodeSealed
  refine bind_permit_unit fun exactly => ?_
  have exactly : bytes.length = 32 := of_decide_eq_true (ensure_eq_ok.mp exactly)
  rw [wordAt_of_le (by omega), ok_bind, wordAt_of_le (by omega), ok_bind, wordAt_of_le (by omega),
    ok_bind, wordAt_of_le (by omega), ok_bind]
  exact bind_permit_unit fun _ => rfl

theorem guardedDecodeRemoved_safe (fits : bytes.length ≤ wordMax) :
    guardedDecodeRemoved bytes = permit (ManifestBody.decodeRemoved bytes) := by
  unfold guardedDecodeRemoved ManifestBody.decodeRemoved
  refine bind_permit_unit fun long => ?_
  have long : 16 ≤ bytes.length := of_decide_eq_true (ensure_eq_ok.mp long)
  rw [wordAt_of_le (by omega), ok_bind]
  refine bind_permit_unit fun _ => ?_
  rw [wordAt_of_le (by omega), ok_bind]
  refine bind_permit fun expected isLength => bind_permit_unit fun same => ?_
  have room : 16 + readWord bytes 8 * 16 ≤ bytes.length := by
    have equal : expected = bytes.length := of_decide_eq_true (ensure_eq_ok.mp same)
    have length := (ManifestBody.checkedLen_eq_ok.mp isLength).1
    omega
  have highwaters : (tableAt 16 (pairAt fun streamId sequence =>
        (⟨Fin.ofNat _ streamId, sequence⟩ : StreamHighwater)) bytes 16 (readWord bytes 8)) =
      .ok (readEntries 16 StreamHighwater.readAt bytes 16 (readWord bytes 8)) :=
    tableAt_of_le room fits fun entry inside => pairAt_of_le fits inside
  rw [reserve_of_le (by omega), ok_bind, highwaters, ok_bind]
  exact bind_permit_unit fun _ => rfl

theorem guardedDecodeManifestBody_safe (kind : Nat) (fits : bytes.length ≤ wordMax) :
    guardedDecodeManifestBody kind bytes = permit (ManifestBody.decode kind bytes) := by
  unfold guardedDecodeManifestBody ManifestBody.decode
  rw [guardedDecodeRelease_safe fits, guardedDecodeSealed_safe, guardedDecodeRemoved_safe fits]
  simp only [permit_ite]

/-! ### Frames -/

section

variable [Hasher]

/-- `ManifestFrameHeader::decode`. -/
def guardedDecodeFrameHeader (encoded : Bytes) : Guarded String ManifestFrameHeader := do
  let bytes ← permit (exact manifestFrameHeaderLen encoded "manifest frame header")
  let magic ← readAt bytes 0 8
  permit (ensure (magic = manifestFrameMagic) "invalid manifest frame magic")
  let matched ← guardedChecksum bytes 40
  permit (ensure matched "manifest frame header checksum mismatch")
  let manifestSeq ← wordAt bytes 8
  let kind ← wordAt bytes 16
  let bodyLen ← wordAt bytes 24
  let bodyChecksum ← wordAt bytes 32
  let header : ManifestFrameHeader := ⟨manifestSeq, kind, bodyLen, bodyChecksum⟩
  permit (ensure (header.manifestSeq ≠ 0) "manifest sequence must be nonzero")
  permit (ensure
    (header.kind = releaseKind || header.kind = segmentSealedKind ||
      header.kind = segmentRemovedKind)
    "unknown manifest frame kind")
  return header

theorem guardedDecodeFrameHeader_safe (encoded : Bytes) :
    guardedDecodeFrameHeader encoded = permit (ManifestFrameHeader.decode encoded) := by
  unfold guardedDecodeFrameHeader ManifestFrameHeader.decode
  refine bind_permit fun bytes isExact => ?_
  obtain ⟨sized, rfl⟩ := exact_eq_ok.mp isExact
  unfold manifestFrameHeaderLen at sized
  rw [readAt_of_le (by omega), ok_bind]
  refine bind_permit_unit fun _ => ?_
  rw [guardedChecksum_of_le (by omega), ok_bind]
  refine bind_permit_unit fun _ => ?_
  rw [wordAt_of_le (by omega), ok_bind, wordAt_of_le (by omega), ok_bind, wordAt_of_le (by omega),
    ok_bind, wordAt_of_le (by omega), ok_bind]
  exact bind_permit_unit fun _ => bind_permit_unit fun _ => rfl

/-- `ManifestFrame::decode`. -/
def guardedDecodeFrame (header : ManifestFrameHeader) (body : Bytes) : Guarded String ManifestFrame := do
  permit (ensure (header.bodyLen = body.length) "manifest frame body length mismatch")
  permit (ensure (checksum body = header.bodyChecksum)
    "manifest frame body checksum mismatch")
  let decoded ← guardedDecodeManifestBody header.kind body
  return { manifestSeq := header.manifestSeq, body := decoded }

theorem guardedDecodeFrame_safe (header : ManifestFrameHeader) (fits : body.length ≤ wordMax) :
    guardedDecodeFrame header body = permit (ManifestFrame.decode header body) := by
  unfold guardedDecodeFrame ManifestFrame.decode
  rw [guardedDecodeManifestBody_safe _ fits]
  simp only [permit_bind, permit_pure]

end

/-! ### Checkpoints -/

/-- The stream loop of `Checkpoint::decode`. -/
def guardedDecodeStreams (body : Bytes) :
    Nat → Nat → Option StreamId → Highwaters →
      Guarded String Highwaters
  | 0, _, _, streams => .ok streams
  | count + 1, index, previous, streams => do
    let scaled ← mul index 16
    let entry ← add 24 scaled
    let identity ← wordAt body entry
    let streamId : StreamId := Fin.ofNat _ identity
    permit (ensure (previous.all fun value => !(streamId ≤ value))
      "checkpoint stream IDs must be strictly increasing")
    let next ← add entry 8
    let highwater ← wordAt body next
    guardedDecodeStreams body count (index + 1) (some streamId) (streams.insert streamId highwater)

theorem guardedDecodeStreams_safe (fits : body.length ≤ wordMax) (count index : Nat)
    (previous : Option StreamId) (streams : Highwaters)
    (inside : 24 + (index + count) * 16 ≤ body.length) :
    guardedDecodeStreams body count index previous streams =
      permit (Checkpoint.decodeStreams body count (24 + index * 16) previous streams) := by
  induction count generalizing index previous streams with
  | zero => rfl
  | succ count ih =>
    unfold guardedDecodeStreams Checkpoint.decodeStreams
    rw [mul_of_le (by omega), ok_bind, add_of_le (by omega), ok_bind, wordAt_of_le (by omega), ok_bind]
    refine bind_permit_unit fun _ => ?_
    rw [add_of_le (by omega), ok_bind, wordAt_of_le (by omega), ok_bind, ih _ _ _ (by omega)]
    rw [Nat.succ_mul, ← Nat.add_assoc]

/-- The lifecycle of a segment entry. -/
def guardedDecodeLifecycle (fixed : Bytes) (segmentId : Nat) (active : Option Nat) :
    Guarded String SegmentLifecycle := do
  let kind ← wordAt fixed 8
  let segmentBytes ← wordAt fixed 16
  let epochCount ← wordAt fixed 24
  let segmentDigest ← wordAt fixed 32
  if kind = activeLifecycle then do
    permit (ensure (segmentBytes = 0 && epochCount = 0 && segmentDigest = 0)
      "active checkpoint segment has nonzero footer fields")
    permit (ensure active.isNone "checkpoint contains more than one active segment")
    return .active
  else if kind = sealedLifecycle then do
    let footer : SegmentFooter := ⟨segmentId, segmentBytes, epochCount, segmentDigest⟩
    permit footer.validate
    return .sealed footer
  else permit (.error "unknown checkpoint lifecycle")

theorem guardedDecodeLifecycle_safe {fixed : Bytes} (segmentId : Nat) (active : Option Nat)
    (sized : fixed.length = 72) : guardedDecodeLifecycle fixed segmentId active =
      permit (Checkpoint.decodeLifecycle fixed segmentId active) := by
  unfold guardedDecodeLifecycle Checkpoint.decodeLifecycle
  rw [wordAt_of_le (by omega), ok_bind, wordAt_of_le (by omega), ok_bind, wordAt_of_le (by omega),
    ok_bind, wordAt_of_le (by omega), ok_bind]
  simp only [permit_ite, permit_bind, permit_pure]

/-- The release units of a segment entry. -/
def guardedDecodeReleases (body : Bytes) (offset encoding unitCount : Nat) :
    Guarded String (ReleaseEncoding × Nat) :=
  if encoding = rangeEncoding then do
    let bytesLen ← permit (orError "range bytes overflow usize" (checkedMul unitCount 16))
    let unitsEnd ← permit (orError "range boundary overflows usize" (checkedAdd offset bytesLen))
    permit (ensure (unitsEnd ≤ body.length) "range units exceed checkpoint body")
    reserve unitCount 16 (body.length - offset)
    let found ← tableAt 16 (pairAt SequenceRange.mk) body offset unitCount
    return (.ranges found, unitsEnd)
  else if encoding = bitmapEncoding then do
    let bytesLen ← permit (orError "bitmap bytes overflow usize" (checkedMul unitCount 8))
    let unitsEnd ← permit (orError "bitmap boundary overflows usize" (checkedAdd offset bytesLen))
    permit (ensure (unitsEnd ≤ body.length) "bitmap units exceed checkpoint body")
    reserve unitCount 8 (body.length - offset)
    let words ← tableAt 8 (fun bytes entry => return BitVec.ofNat 64 (← wordAt bytes entry)) body
      offset unitCount
    return (.bitmap words, unitsEnd)
  else permit (.error "unknown checkpoint release encoding")

theorem guardedDecodeReleases_safe (fits : body.length ≤ wordMax) (offset encoding unitCount : Nat)
    : guardedDecodeReleases body offset encoding unitCount =
      permit (Checkpoint.decodeReleases body offset encoding unitCount) := by
  unfold guardedDecodeReleases Checkpoint.decodeReleases
  by_cases isRanges : encoding = rangeEncoding
  · rw [if_pos isRanges, if_pos isRanges]
    refine bind_permit fun bytesLen isLength => bind_permit fun unitsEnd isEnd =>
      bind_permit_unit fun within => ?_
    simp only [orError_eq_ok, checkedMul_eq_some, checkedAdd_eq_some, ensure_eq_ok,
      decide_eq_true_eq] at isLength isEnd within
    have found : (tableAt 16 (pairAt SequenceRange.mk) body offset unitCount) =
        .ok (readEntries 16 SequenceRange.readAt body offset unitCount) :=
      tableAt_of_le (by omega) fits fun entry inside => pairAt_of_le fits inside
    rw [reserve_of_le (by omega), ok_bind, found, ok_bind]
    rfl
  rw [if_neg isRanges, if_neg isRanges]
  by_cases isBitmap : encoding = bitmapEncoding
  · rw [if_pos isBitmap, if_pos isBitmap]
    refine bind_permit fun bytesLen isLength => bind_permit fun unitsEnd isEnd =>
      bind_permit_unit fun within => ?_
    simp only [orError_eq_ok, checkedMul_eq_some, checkedAdd_eq_some, ensure_eq_ok,
      decide_eq_true_eq] at isLength isEnd within
    have words : (tableAt 8 (fun bytes entry => return BitVec.ofNat 64 (← wordAt bytes entry)) body
        offset unitCount : Guarded String _) = .ok (readEntries 8 (fun bytes entry =>
          BitVec.ofNat 64 (readWord bytes entry)) body offset unitCount) := by
      refine tableAt_of_le (by omega) fits fun entry inside => ?_
      rw [wordAt_of_le inside]
      rfl
    rw [reserve_of_le (by omega), ok_bind, words, ok_bind]
    rfl
  · rw [if_neg isBitmap, if_neg isBitmap]

/-- One segment entry. -/
def guardedDecodeSegment (body : Bytes) (offset : Nat) (previous active : Option Nat) :
    Guarded String Checkpoint.DecodedSegment := do
  let fixedEnd ← permit (orError "checkpoint segment entry overflows usize"
    (checkedAdd offset 72))
  permit (ensure (fixedEnd ≤ body.length) "checkpoint segment fixed fields exceed body")
  let fixed ← readAt body offset 72
  let segmentId ← wordAt fixed 0
  permit (ensure (segmentId ≠ wordMax) "u64::MAX is not a valid segment ID")
  permit (ensure (previous.all fun value => !(segmentId ≤ value))
    "checkpoint segment IDs must be strictly increasing")
  let lifecycle ← guardedDecodeLifecycle fixed segmentId active
  let recordCount ← wordAt fixed 40
  permit (ensure (recordCount ≠ 0) "checkpoint segment record_count must be nonzero")
  let releasedCount ← wordAt fixed 48
  permit (ensure (releasedCount ≤ recordCount) "checkpoint released_count exceeds record_count")
  let encoding ← wordAt fixed 56
  let unitCount ← wordAt fixed 64
  let (releases, unitsEnd) ← guardedDecodeReleases body fixedEnd encoding unitCount
  let actualReleased ← permit (releases.validateCanonical recordCount)
  permit (ensure (actualReleased = releasedCount) "checkpoint release encoding count mismatch")
  return {
    segmentId := segmentId
    segment := { lifecycle := lifecycle, recordCount := recordCount, releases := releases }
    offset := unitsEnd }

theorem guardedDecodeSegment_safe (fits : body.length ≤ wordMax) (offset : Nat)
    (previous active : Option Nat) : guardedDecodeSegment body offset previous active =
      permit (Checkpoint.decodeSegment body offset previous active) := by
  unfold guardedDecodeSegment Checkpoint.decodeSegment
  refine bind_permit fun fixedEnd isEnd => bind_permit_unit fun within => ?_
  simp only [orError_eq_ok, checkedAdd_eq_some, ensure_eq_ok,
    decide_eq_true_eq] at isEnd within
  have sized : (slice body offset 72).length = 72 := slice_length (by omega)
  rw [readAt_of_le (by omega), ok_bind, wordAt_of_le (by omega), ok_bind]
  refine bind_permit_unit fun _ => bind_permit_unit fun _ => ?_
  rw [guardedDecodeLifecycle_safe _ _ sized]
  refine bind_permit fun lifecycle _ => ?_
  rw [wordAt_of_le (by omega), ok_bind]
  refine bind_permit_unit fun _ => ?_
  rw [wordAt_of_le (by omega), ok_bind]
  refine bind_permit_unit fun _ => ?_
  rw [wordAt_of_le (by omega), ok_bind, wordAt_of_le (by omega), ok_bind,
    guardedDecodeReleases_safe fits]
  exact bind_permit fun units _ => bind_permit fun actual _ => bind_permit_unit fun _ => rfl

/-- The segment loop of `Checkpoint::decode`. -/
def guardedDecodeSegments (body : Bytes) :
    Nat → Checkpoint.SegmentTable → Guarded String Checkpoint.SegmentTable
  | 0, table => .ok table
  | count + 1, table => do
    let decoded ← guardedDecodeSegment body table.offset table.previous table.active
    guardedDecodeSegments body count {
      offset := decoded.offset
      previous := some decoded.segmentId
      active := if decoded.segment.lifecycle.isActive then some decoded.segmentId else table.active
      segments := table.segments.insert decoded.segmentId decoded.segment }

theorem guardedDecodeSegments_safe (fits : body.length ≤ wordMax) (count : Nat)
    (table : Checkpoint.SegmentTable) :
    guardedDecodeSegments body count table = permit (Checkpoint.decodeSegments body count table) := by
  induction count generalizing table with
  | zero => rfl
  | succ count ih =>
    unfold guardedDecodeSegments Checkpoint.decodeSegments
    rw [guardedDecodeSegment_safe fits]
    exact bind_permit fun decoded _ => ih _

/-- The body of a checkpoint. -/
def guardedDecodeBody (rootId : RootId) (lastAppliedSeq : Nat) (body : Bytes) :
    Guarded String Checkpoint := do
  permit (ensure (24 ≤ body.length) "checkpoint body is shorter than its prefix")
  let nextSegmentId ← wordAt body 0
  let streamCount ← wordAt body 8
  let segmentCount ← wordAt body 16
  let streamBytes ← permit (orError "stream entries overflow usize" (checkedMul streamCount 16))
  let offset ← permit (orError "checkpoint stream boundary overflows usize"
    (checkedAdd 24 streamBytes))
  permit (ensure (offset ≤ body.length) "checkpoint stream entries exceed body")
  let streamHighwaters ← guardedDecodeStreams body streamCount 0 none ∅
  let table ← guardedDecodeSegments body segmentCount {
    offset := offset, previous := none, active := none, segments := ∅ }
  permit (ensure (table.offset = body.length) "checkpoint body has trailing bytes")
  permit (ensure (table.active.all fun active => Maps.greatest table.segments = some active)
    "active checkpoint segment must have greatest extant ID")
  permit (ensure ((Maps.greatest table.segments).all fun greatest => greatest < nextSegmentId)
    "next_segment_id must exceed every extant segment ID")
  let checkpoint : Checkpoint := {
    rootId := rootId
    lastAppliedSeq := lastAppliedSeq
    nextSegmentId := nextSegmentId
    streamHighwaters := streamHighwaters
    segments := table.segments }
  permit checkpoint.validate
  return checkpoint

theorem guardedDecodeBody_safe (fits : body.length ≤ wordMax) (rootId : RootId)
    (lastAppliedSeq : Nat) : guardedDecodeBody rootId lastAppliedSeq body =
      permit (Checkpoint.decodeBody rootId lastAppliedSeq body) := by
  unfold guardedDecodeBody Checkpoint.decodeBody
  refine bind_permit_unit fun long => ?_
  have long : 24 ≤ body.length := of_decide_eq_true (ensure_eq_ok.mp long)
  rw [wordAt_of_le (by omega), ok_bind, wordAt_of_le (by omega), ok_bind, wordAt_of_le (by omega),
    ok_bind]
  refine bind_permit fun streamBytes isLength => bind_permit fun offset isOffset =>
    bind_permit_unit fun within => ?_
  simp only [orError_eq_ok, checkedMul_eq_some, checkedAdd_eq_some, ensure_eq_ok,
    decide_eq_true_eq] at isLength isOffset within
  rw [guardedDecodeStreams_safe fits _ _ _ _ (by omega)]
  refine bind_permit fun streams _ => ?_
  rw [guardedDecodeSegments_safe fits]
  exact bind_permit fun table _ => bind_permit_unit fun _ => bind_permit_unit fun _ =>
    bind_permit_unit fun _ => bind_permit_unit fun _ => rfl

section

variable [Hasher]

/-- `Checkpoint::decode`. -/
def guardedDecodeCheckpoint (bytes : Bytes) : Guarded String Checkpoint := do
  permit (ensure (checkpointHeaderLen ≤ bytes.length) "checkpoint is shorter than its header")
  let header ← readAt bytes 0 checkpointHeaderLen
  let magic ← readAt header 0 8
  permit (ensure (magic = checkpointMagic) "invalid checkpoint magic")
  let matched ← guardedChecksum header 48
  permit (ensure matched "checkpoint header checksum mismatch")
  let bodyLen ← wordAt header 32
  let expected ← permit (orError "checkpoint length overflows u64"
    (checkedAdd checkpointHeaderLen bodyLen))
  permit (ensure (expected = bytes.length) "checkpoint body length mismatch")
  let rest ← sub bytes.length checkpointHeaderLen
  let body ← readAt bytes checkpointHeaderLen rest
  let bodyChecksum ← wordAt header 40
  permit (ensure (checksum body = bodyChecksum) "checkpoint body checksum mismatch")
  let identity ← readAt header 8 16
  let lastAppliedSeq ← wordAt header 24
  guardedDecodeBody (RootId.fromSlice identity 0) lastAppliedSeq body

/-- **The decoder of checkpoints is safe on every input.** -/
theorem guardedDecodeCheckpoint_safe (fits : bytes.length ≤ wordMax) :
    guardedDecodeCheckpoint bytes = permit (Checkpoint.decode bytes) := by
  unfold guardedDecodeCheckpoint Checkpoint.decode
  refine bind_permit_unit fun long => ?_
  have long : checkpointHeaderLen ≤ bytes.length := of_decide_eq_true (ensure_eq_ok.mp long)
  have sized : (slice bytes 0 checkpointHeaderLen).length = 56 := slice_length (by omega)
  rw [readAt_of_le (by omega), ok_bind, readAt_of_le (by omega), ok_bind]
  refine bind_permit_unit fun _ => ?_
  rw [guardedChecksum_of_le (by omega), ok_bind]
  refine bind_permit_unit fun _ => ?_
  rw [wordAt_of_le (by omega), ok_bind]
  refine bind_permit fun expected _ => bind_permit_unit fun _ => ?_
  have rest : slice bytes checkpointHeaderLen (bytes.length - checkpointHeaderLen) =
      bytes.drop checkpointHeaderLen := by
    unfold slice
    rw [List.take_of_length_le (by rw [List.length_drop])]
  rw [sub_of_le long, ok_bind, readAt_of_le (by omega), ok_bind, rest, wordAt_of_le (by omega), ok_bind]
  refine bind_permit_unit fun _ => ?_
  rw [readAt_of_le (by omega), ok_bind, wordAt_of_le (by omega), ok_bind,
    guardedDecodeBody_safe (by rw [List.length_drop]; omega)]
  have identity : ∀ header : Bytes, RootId.fromSlice (slice header 8 16) 0 =
      RootId.fromSlice header 8 := by
    intro header
    simp only [RootId.fromSlice, slice_slice (show 0 + 16 ≤ 16 from Nat.le_refl _), Nat.add_zero]
  rw [identity]

end

end Camus
