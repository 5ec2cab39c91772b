/-
**Manifest frames.**

The manifest log is a sequence of frames, each a header and a body: a release of sequences, the
sealing of a segment, or its removal. Bodies hold canonical range sets and high-water lists.

* `ManifestFrame.decode_encodeParts`: a frame that was encoded reads back as itself.
-/

import Camus.Format.Fixed
import Mathlib.Algebra.Order.BigOperators.Group.List
import Mathlib.Algebra.Order.Group.Nat

namespace Camus

open Checked Codec Result

variable {count : Nat} {previousEnd : Option Nat}

/-! ### Bodies -/

/-- The sequences `start ..= start + len - 1`. -/
structure SequenceRange where
  start : Nat
  len : Nat
deriving DecidableEq

/-- A release of sequences of one stream. -/
structure ReleaseBody where
  streamId : StreamId
  ranges : List SequenceRange
deriving DecidableEq

/-- The sealing of a segment. -/
structure SegmentSealedBody where
  segmentId : Nat
  segmentBytes : Nat
  epochCount : Nat
  segmentDigest : Nat
deriving DecidableEq

/-- The greatest sequence of a stream. -/
structure StreamHighwater where
  streamId : StreamId
  sequence : Nat
deriving DecidableEq

/-- The removal of a segment, with the high-waters it makes durable. -/
structure SegmentRemovedBody where
  segmentId : Nat
  highwaters : List StreamHighwater
deriving DecidableEq

/-- What a frame says. -/
inductive ManifestBody where
  | release (body : ReleaseBody)
  | segmentSealed (body : SegmentSealedBody)
  | segmentRemoved (body : SegmentRemovedBody)
deriving DecidableEq

/-- The tags of the bodies. -/
def releaseKind : Nat := 1

@[inherit_doc releaseKind] def segmentSealedKind : Nat := 2

@[inherit_doc releaseKind] def segmentRemovedKind : Nat := 3

/-! ### Range sets and high-water lists -/

/-- The last sequence of a range. -/
def SequenceRange.finish (range : SequenceRange) : FormatResult Nat := do
  ensure (range.len ≠ 0) "range length must be nonzero"
  orError "range end overflows u64" (checkedAdd range.start (range.len - 1))

/-- A range starts beyond the successor of the end of the one before it. -/
def SequenceRange.follows (range : SequenceRange) : Option Nat → FormatResult Unit
  | none => .ok ()
  | some previous => do
    let minimum ← orError "range cannot follow u64::MAX" (checkedAdd previous 2)
    ensure (minimum ≤ range.start)
      "ranges must be sorted, disjoint, and maximally coalesced"

/-- Ranges are sorted, disjoint and not adjacent, after a range that ended at `previousEnd`. -/
def validateRangesAfter : Option Nat → List SequenceRange → FormatResult Unit
  | _, [] => .ok ()
  | previousEnd, range :: rest => do
    let finish ← range.finish
    range.follows previousEnd
    validateRangesAfter (some finish) rest

/-- The checks of a range set. -/
def validateRanges (ranges : List SequenceRange) (allowEmpty : Bool) : FormatResult Unit := do
  ensure (!ranges.isEmpty || allowEmpty) "range set must be nonempty"
  validateRangesAfter none ranges

/-- The sum of the lengths of some ranges. -/
def sumLengths : Nat → List SequenceRange → FormatResult Nat :=
  tryFold fun total range =>
    orError "released_count overflows u64" (checkedAdd total range.len)

/-- The number of sequences a release names. -/
def ReleaseBody.releasedCount (release : ReleaseBody) : FormatResult Nat := do
  validateRanges release.ranges false
  sumLengths 0 release.ranges

/-- Stream identities increase strictly after `previous`. -/
def validateHighwatersAfter : Option StreamId → List StreamHighwater → FormatResult Unit
  | _, [] => .ok ()
  | previous, highwater :: rest => do
    ensure (previous.all fun value => !(highwater.streamId ≤ value))
      "high-water stream IDs must be strictly increasing"
    validateHighwatersAfter (some highwater.streamId) rest

/-- The checks of a high-water list. -/
def validateHighwaters (highwaters : List StreamHighwater) : FormatResult Unit :=
  validateHighwatersAfter none highwaters

/-! ### Encoding bodies -/

/-- A length that must not overflow. -/
def checkedLen (base count unit : Nat) (name : String) : FormatResult Nat :=
  orError s!"{name} length overflows u64" do
    let bytes ← checkedMul count unit
    checkedAdd base bytes

/-- The two words of a range. -/
def SequenceRange.encode (range : SequenceRange) : Bytes := word range.start ++ word range.len

/-- Reads a range. -/
def SequenceRange.readAt (bytes : Bytes) (offset : Nat) : SequenceRange where
  start := readWord bytes offset
  len := readWord bytes (offset + 8)

/-- The two words of a high-water. -/
def StreamHighwater.encode (highwater : StreamHighwater) : Bytes :=
  word highwater.streamId.val ++ word highwater.sequence

/-- Reads a high-water. -/
def StreamHighwater.readAt (bytes : Bytes) (offset : Nat) : StreamHighwater where
  streamId := Fin.ofNat _ (readWord bytes offset)
  sequence := readWord bytes (offset + 8)

namespace ManifestBody

/-- The tag of a body. -/
def kind : ManifestBody → Nat
  | .release _ => releaseKind
  | .segmentSealed _ => segmentSealedKind
  | .segmentRemoved _ => segmentRemovedKind

/-- The bytes of a body. -/
def encode : ManifestBody → FormatResult Bytes
  | .release body => do
    let count ← body.releasedCount
    let rangeCount ← orError "release range count does not fit u64"
      (toWord body.ranges.length)
    let _ ← checkedLen 24 rangeCount 16 "Release body"
    return word body.streamId.val ++ (word count ++ (word rangeCount ++
      body.ranges.flatMap SequenceRange.encode))
  | .segmentSealed sealed => do
    ensure (sealed.segmentId ≠ wordMax && sealed.epochCount ≠ 0)
      "invalid SegmentSealed body"
    return word sealed.segmentId ++ (word sealed.segmentBytes ++
      (word sealed.epochCount ++ word sealed.segmentDigest))
  | .segmentRemoved removed => do
    ensure (removed.segmentId ≠ wordMax) "invalid SegmentRemoved segment ID"
    validateHighwaters removed.highwaters
    let count ← orError "high-water count does not fit u64"
      (toWord removed.highwaters.length)
    let _ ← checkedLen 16 count 16 "SegmentRemoved body"
    return word removed.segmentId ++ (word count ++
      removed.highwaters.flatMap StreamHighwater.encode)

/-- Reads a Release body. -/
def decodeRelease (bytes : Bytes) : FormatResult ManifestBody := do
  ensure (24 ≤ bytes.length) "Release body is shorter than 24 bytes"
  let releasedCount := readWord bytes 8
  let rangeCount := readWord bytes 16
  ensure (releasedCount ≠ 0 && rangeCount ≠ 0)
    "Release counts must both be greater than zero"
  let expected ← checkedLen 24 rangeCount 16 "Release body"
  ensure (expected = bytes.length) "Release body length mismatch"
  let body : ReleaseBody := {
    streamId := Fin.ofNat _ (readWord bytes 0)
    ranges := readEntries 16 SequenceRange.readAt bytes 24 rangeCount }
  let actual ← body.releasedCount
  ensure (actual = releasedCount) "Release released_count mismatch"
  return release body

/-- Reads a SegmentSealed body. -/
def decodeSealed (bytes : Bytes) : FormatResult ManifestBody := do
  ensure (bytes.length = 32) "SegmentSealed body must be exactly 32 bytes"
  let body : SegmentSealedBody := {
    segmentId := readWord bytes 0
    segmentBytes := readWord bytes 8
    epochCount := readWord bytes 16
    segmentDigest := readWord bytes 24 }
  ensure (body.segmentId ≠ wordMax && body.epochCount ≠ 0) "invalid SegmentSealed body"
  return segmentSealed body

/-- Reads a SegmentRemoved body. -/
def decodeRemoved (bytes : Bytes) : FormatResult ManifestBody := do
  ensure (16 ≤ bytes.length) "SegmentRemoved body is shorter than 16 bytes"
  let segmentId := readWord bytes 0
  ensure (segmentId ≠ wordMax) "invalid SegmentRemoved segment ID"
  let count := readWord bytes 8
  let expected ← checkedLen 16 count 16 "SegmentRemoved body"
  ensure (expected = bytes.length) "SegmentRemoved body length mismatch"
  let highwaters := readEntries 16 StreamHighwater.readAt bytes 16 count
  validateHighwaters highwaters
  return segmentRemoved { segmentId := segmentId, highwaters := highwaters }

/-- Reads a body of some kind. -/
def decode (kind : Nat) (bytes : Bytes) : FormatResult ManifestBody :=
  if kind = releaseKind then decodeRelease bytes
  else if kind = segmentSealedKind then decodeSealed bytes
  else if kind = segmentRemovedKind then decodeRemoved bytes
  else .error "unknown manifest frame kind"

end ManifestBody

/-! ### Frames -/

/-- A frame of the manifest log. -/
structure ManifestFrame where
  manifestSeq : Nat
  body : ManifestBody
deriving DecidableEq

/-- The header of a frame. -/
structure ManifestFrameHeader where
  manifestSeq : Nat
  kind : Nat
  bodyLen : Nat
  bodyChecksum : Nat
deriving DecidableEq

section

variable [Hasher]

/-- Reads a frame header. -/
def ManifestFrameHeader.decode (encoded : Bytes) : FormatResult ManifestFrameHeader := do
  let bytes ← exact manifestFrameHeaderLen encoded "manifest frame header"
  ensure (slice bytes 0 8 = manifestFrameMagic) "invalid manifest frame magic"
  ensure (checksumMatches bytes 40) "manifest frame header checksum mismatch"
  let header : ManifestFrameHeader := {
    manifestSeq := readWord bytes 8
    kind := readWord bytes 16
    bodyLen := readWord bytes 24
    bodyChecksum := readWord bytes 32 }
  ensure (header.manifestSeq ≠ 0) "manifest sequence must be nonzero"
  ensure
    (header.kind = releaseKind || header.kind = segmentSealedKind ||
      header.kind = segmentRemovedKind)
    "unknown manifest frame kind"
  return header

/-- The forty-eight bytes of a frame header. -/
def ManifestFrameHeader.encode (header : ManifestFrameHeader) : Bytes :=
  withChecksum (manifestFrameMagic ++ (word header.manifestSeq ++ (word header.kind ++
    (word header.bodyLen ++ word header.bodyChecksum))))

/-- The bytes of a frame. -/
def ManifestFrame.encodeParts (manifestSeq : Nat) (body : ManifestBody) : FormatResult Bytes := do
  ensure (manifestSeq ≠ 0) "manifest sequence must be nonzero"
  let encodedBody ← body.encode
  let bodyLen ← orError "manifest body length does not fit u64"
    (toWord encodedBody.length)
  let _ ← orError "manifest frame length overflows u64"
    (checkedAdd manifestFrameHeaderLen bodyLen)
  let header : ManifestFrameHeader := {
    manifestSeq := manifestSeq
    kind := body.kind
    bodyLen := bodyLen
    bodyChecksum := checksum encodedBody }
  return header.encode ++ encodedBody

/-- Reads the body a frame header announced. -/
def ManifestFrame.decode (header : ManifestFrameHeader) (body : Bytes) :
    FormatResult ManifestFrame := do
  ensure (header.bodyLen = body.length) "manifest frame body length mismatch"
  ensure (checksum body = header.bodyChecksum) "manifest frame body checksum mismatch"
  let decoded ← ManifestBody.decode header.kind body
  return { manifestSeq := header.manifestSeq, body := decoded }

end

/-! ### Frames read back -/

theorem SequenceRange.finish_eq_ok {range : SequenceRange} {finish : Nat} :
    range.finish = .ok finish ↔
      range.len ≠ 0 ∧ range.start + (range.len - 1) = finish ∧ finish ≤ wordMax := by
  simp [SequenceRange.finish, checkedAdd_eq_some]

theorem SequenceRange.follows_eq_ok {range : SequenceRange} (fits : range.start ≤ wordMax) :
    range.follows previousEnd = .ok () ↔
      ∀ previous, previousEnd = some previous → previous + 2 ≤ range.start := by
  cases previousEnd with
  | none => simp [SequenceRange.follows]
  | some previous =>
    simp only [SequenceRange.follows, bind_eq_ok, orError_eq_ok, checkedAdd_eq_some,
      ensure_eq_ok, decide_eq_true_eq, Option.some.injEq]
    constructor
    · rintro ⟨_, ⟨rfl, -⟩, enough⟩ _ rfl
      exact enough
    · intro order
      have enough := order previous rfl
      exact ⟨_, ⟨rfl, by omega⟩, enough⟩

theorem validateRangesAfter_cons {range : SequenceRange} {rest : List SequenceRange} :
    validateRangesAfter previousEnd (range :: rest) = .ok () ↔
      range.len ≠ 0 ∧ range.start + (range.len - 1) ≤ wordMax ∧
      (∀ previous, previousEnd = some previous → previous + 2 ≤ range.start) ∧
      validateRangesAfter (some (range.start + (range.len - 1))) rest = .ok () := by
  simp only [validateRangesAfter, bind_eq_ok, SequenceRange.finish_eq_ok]
  constructor
  · rintro ⟨_, ⟨nonzero, rfl, fits⟩, ⟨⟩, order, valid⟩
    exact ⟨nonzero, fits, (SequenceRange.follows_eq_ok (by omega)).mp order, valid⟩
  · rintro ⟨nonzero, fits, order, valid⟩
    exact ⟨_, ⟨nonzero, rfl, fits⟩, (), (SequenceRange.follows_eq_ok (by omega)).mpr order, valid⟩

theorem validateRangesAfter_bounds {ranges : List SequenceRange}
    (valid : validateRangesAfter previousEnd ranges = .ok ()) :
    ∀ range ∈ ranges, range.len ≠ 0 ∧ range.start + (range.len - 1) ≤ wordMax := by
  induction ranges generalizing previousEnd with
  | nil => simp
  | cons first rest ih =>
    obtain ⟨nonzero, fits, -, valid⟩ := validateRangesAfter_cons.mp valid
    rintro range (_ | ⟨_, member⟩)
    · exact ⟨nonzero, fits⟩
    · exact ih valid range member

theorem sumLengths_eq_ok {total sum : Nat} {ranges : List SequenceRange}
    (bounded : total ≤ wordMax) :
    sumLengths total ranges = .ok sum ↔
      total + (ranges.map (·.len)).sum = sum ∧ sum ≤ wordMax := by
  induction ranges generalizing total with
  | nil =>
    simp only [sumLengths, tryFold_nil, Except.ok.injEq, List.map_nil, List.sum_nil,
      Nat.add_zero]
    constructor
    · rintro rfl
      exact ⟨rfl, bounded⟩
    · exact fun equal => equal.1
  | cons first rest ih =>
    unfold sumLengths at ih ⊢
    rw [tryFold_cons]
    simp only [bind_eq_ok, orError_eq_ok, checkedAdd_eq_some, List.map_cons,
      List.sum_cons]
    constructor
    · rintro ⟨_, ⟨rfl, fits⟩, summed⟩
      have := (ih fits).mp summed
      omega
    · rintro ⟨rfl, fits⟩
      exact ⟨_, ⟨rfl, by omega⟩, (ih (by omega)).mpr (by omega)⟩

namespace ManifestBody

/-- The fields of a body are words. -/
def Representable : ManifestBody → Prop
  | .release _ => True
  | .segmentSealed body => body.segmentId ≤ wordMax ∧ body.segmentBytes ≤ wordMax ∧
      body.epochCount ≤ wordMax ∧ body.segmentDigest ≤ wordMax
  | .segmentRemoved body => body.segmentId ≤ wordMax ∧
      ∀ highwater ∈ body.highwaters, highwater.sequence ≤ wordMax

theorem checkedLen_eq_ok {base unit length : Nat} {name : String} :
    checkedLen base count unit name = .ok length ↔
      base + count * unit = length ∧ length ≤ wordMax := by
  simp only [checkedLen, orError_eq_ok, Option.bind_eq_bind, Option.bind_eq_some_iff,
    checkedMul_eq_some, checkedAdd_eq_some]
  constructor
  · rintro ⟨_, ⟨rfl, -⟩, rfl, fits⟩
    exact ⟨rfl, fits⟩
  · rintro ⟨rfl, fits⟩
    exact ⟨_, ⟨rfl, by omega⟩, rfl, fits⟩

theorem encode_release {body : ReleaseBody} {bytes : Bytes} :
    encode (.release body) = .ok bytes ↔ ∃ count, body.releasedCount = .ok count ∧
      24 + body.ranges.length * 16 ≤ wordMax ∧
      word body.streamId.val ++ (word count ++ (word body.ranges.length ++
        body.ranges.flatMap SequenceRange.encode)) = bytes := by
  simp only [encode, bind_eq_ok, orError_eq_ok, toWord_eq_some, checkedLen_eq_ok,
    pure_eq_ok]
  constructor
  · rintro ⟨count, counted, _, ⟨rfl, -⟩, _, ⟨rfl, fits⟩, rfl⟩
    exact ⟨count, counted, fits, rfl⟩
  · rintro ⟨count, counted, fits, rfl⟩
    exact ⟨count, counted, _, ⟨rfl, by omega⟩, _, ⟨rfl, fits⟩, rfl⟩

theorem encode_sealed {body : SegmentSealedBody} {bytes : Bytes} :
    encode (.segmentSealed body) = .ok bytes ↔
      (body.segmentId ≠ wordMax ∧ body.epochCount ≠ 0) ∧
      word body.segmentId ++ (word body.segmentBytes ++
        (word body.epochCount ++ word body.segmentDigest)) = bytes := by
  simp [encode]

theorem encode_removed {body : SegmentRemovedBody} {bytes : Bytes} :
    encode (.segmentRemoved body) = .ok bytes ↔ body.segmentId ≠ wordMax ∧
      validateHighwaters body.highwaters = .ok () ∧
      16 + body.highwaters.length * 16 ≤ wordMax ∧
      word body.segmentId ++ (word body.highwaters.length ++
        body.highwaters.flatMap StreamHighwater.encode) = bytes := by
  simp only [encode, bind_eq_ok, orError_eq_ok, toWord_eq_some, checkedLen_eq_ok,
    pure_eq_ok, ensure_eq_ok, decide_eq_true_eq]
  constructor
  · rintro ⟨_, valid, _, ordered, _, ⟨rfl, -⟩, _, ⟨rfl, fits⟩, rfl⟩
    exact ⟨valid, ordered, fits, rfl⟩
  · rintro ⟨valid, ordered, fits, rfl⟩
    exact ⟨(), valid, (), ordered, _, ⟨rfl, by omega⟩, _, ⟨rfl, fits⟩, rfl⟩

end ManifestBody

@[simp] theorem SequenceRange.encode_length (range : SequenceRange) : range.encode.length = 16 := by
  simp [SequenceRange.encode]

@[simp] theorem StreamHighwater.encode_length (highwater : StreamHighwater) :
    highwater.encode.length = 16 := by
  simp [StreamHighwater.encode]

theorem SequenceRange.readAt_encode {range : SequenceRange} (start : range.start ≤ wordMax)
    (len : range.len ≤ wordMax) (before after : Bytes) :
    SequenceRange.readAt (before ++ (range.encode ++ after)) before.length = range := by
  simp [SequenceRange.readAt, SequenceRange.encode, start, len]

theorem StreamHighwater.readAt_encode {highwater : StreamHighwater}
    (sequence : highwater.sequence ≤ wordMax) (before after : Bytes) :
    StreamHighwater.readAt (before ++ (highwater.encode ++ after)) before.length = highwater := by
  have stream : highwater.streamId.val ≤ wordMax := Nat.le_of_lt_succ highwater.streamId.isLt
  simp [StreamHighwater.readAt, StreamHighwater.encode, stream, sequence]

theorem ReleaseBody.releasedCount_eq_ok {body : ReleaseBody} :
    body.releasedCount = .ok count ↔ body.ranges ≠ [] ∧
      validateRangesAfter none body.ranges = .ok () ∧
      (body.ranges.map (·.len)).sum = count ∧ count ≤ wordMax := by
  simp only [ReleaseBody.releasedCount, validateRanges, bind_eq_ok,
    sumLengths_eq_ok (Nat.zero_le wordMax), Nat.zero_add, ensure_eq_ok, Bool.or_false,
    Bool.not_eq_true', List.isEmpty_eq_false_iff]
  constructor
  · rintro ⟨_, ⟨_, nonempty, valid⟩, summed⟩
    exact ⟨nonempty, valid, summed⟩
  · rintro ⟨nonempty, valid, summed⟩
    exact ⟨(), ⟨(), nonempty, valid⟩, summed⟩

/-- A release that has a count names at least one sequence, and its ranges are words. -/
theorem ReleaseBody.releasedCount_bounds {body : ReleaseBody}
    (counted : body.releasedCount = .ok count) :
    count ≠ 0 ∧ count ≤ wordMax ∧
      ∀ range ∈ body.ranges, range.start ≤ wordMax ∧ range.len ≤ wordMax := by
  obtain ⟨nonempty, valid, rfl, fits⟩ := ReleaseBody.releasedCount_eq_ok.mp counted
  have bounds := validateRangesAfter_bounds valid
  have member_le : ∀ range ∈ body.ranges, range.len ≤ (body.ranges.map (·.len)).sum :=
    fun range member =>
      List.single_le_sum (fun _ _ => Nat.zero_le _) _ (List.mem_map_of_mem member)
  refine ⟨?_, fits, fun range member => ?_⟩
  · obtain ⟨first, rest, same⟩ := List.exists_cons_of_ne_nil nonempty
    have member : first ∈ body.ranges := same ▸ List.mem_cons_self
    have := bounds first member
    have := member_le first member
    omega
  · have := bounds range member
    have := member_le range member
    omega

namespace ManifestBody

theorem decodeRelease_encode {body : ReleaseBody} {bytes : Bytes}
    (encoded : encode (.release body) = .ok bytes) : decodeRelease bytes = .ok (.release body) := by
  obtain ⟨count, counted, fits, rfl⟩ := encode_release.mp encoded
  obtain ⟨positive, countFits, words⟩ := ReleaseBody.releasedCount_bounds counted
  obtain ⟨nonempty, -, -⟩ := ReleaseBody.releasedCount_eq_ok.mp counted
  have stream : body.streamId.val ≤ wordMax := Nat.le_of_lt_succ body.streamId.isLt
  have ranges : body.ranges.length ≤ wordMax := by omega
  have table := readEntries_flatMap SequenceRange.readAt SequenceRange.encode_length
    (word body.streamId.val ++ (word count ++ word body.ranges.length)) body.ranges []
    fun range member => SequenceRange.readAt_encode (words range member).1 (words range member).2
  simp only [List.append_nil, List.append_assoc, List.length_append, word_length] at table
  have expected : checkedLen 24 body.ranges.length 16 "Release body" =
      .ok (24 + body.ranges.length * 16) := checkedLen_eq_ok.mpr ⟨rfl, fits⟩
  have length : (word body.streamId.val ++ (word count ++ (word body.ranges.length ++
      body.ranges.flatMap SequenceRange.encode))).length = 24 + body.ranges.length * 16 := by
    rw [List.length_append, List.length_append, List.length_append,
      flatMap_length SequenceRange.encode_length]
    simp only [word_length]
    omega
  simp [decodeRelease, stream, countFits, ranges, length, expected, table, counted, positive,
    nonempty]

theorem decodeSealed_encode {body : SegmentSealedBody} {bytes : Bytes}
    (fits : Representable (.segmentSealed body)) (encoded : encode (.segmentSealed body) = .ok bytes) :
    decodeSealed bytes = .ok (.segmentSealed body) := by
  obtain ⟨valid, rfl⟩ := encode_sealed.mp encoded
  obtain ⟨id, length, count, digest⟩ := fits
  simp [decodeSealed, id, length, count, digest, valid]

theorem decodeRemoved_encode {body : SegmentRemovedBody} {bytes : Bytes}
    (fits : Representable (.segmentRemoved body))
    (encoded : encode (.segmentRemoved body) = .ok bytes) :
    decodeRemoved bytes = .ok (.segmentRemoved body) := by
  obtain ⟨valid, ordered, sized, rfl⟩ := encode_removed.mp encoded
  obtain ⟨id, sequences⟩ := fits
  have entries : body.highwaters.length ≤ wordMax := by omega
  have table := readEntries_flatMap StreamHighwater.readAt StreamHighwater.encode_length
    (word body.segmentId ++ word body.highwaters.length) body.highwaters []
    fun highwater member => StreamHighwater.readAt_encode (sequences highwater member)
  simp only [List.append_nil, List.append_assoc, List.length_append, word_length] at table
  have expected : checkedLen 16 body.highwaters.length 16 "SegmentRemoved body" =
      .ok (16 + body.highwaters.length * 16) := checkedLen_eq_ok.mpr ⟨rfl, sized⟩
  have length : (word body.segmentId ++ (word body.highwaters.length ++
      body.highwaters.flatMap StreamHighwater.encode)).length =
        16 + body.highwaters.length * 16 := by
    rw [List.length_append, List.length_append, flatMap_length StreamHighwater.encode_length]
    simp only [word_length]
    omega
  simp [decodeRemoved, id, entries, length, expected, table, ordered, valid]

/-- **A body that was encoded reads back as itself.** -/
theorem decode_encode {body : ManifestBody} {bytes : Bytes} (fits : body.Representable)
    (encoded : body.encode = .ok bytes) : decode body.kind bytes = .ok body := by
  cases body with
  | release body => exact decodeRelease_encode encoded
  | segmentSealed body => exact decodeSealed_encode fits encoded
  | segmentRemoved body => exact decodeRemoved_encode fits encoded

end ManifestBody

namespace ManifestFrame

variable [Hasher] {manifestSeq : Nat} {body : ManifestBody} {bytes : Bytes}

/-- The header of the frame of an encoded body. -/
def headerOf (manifestSeq : Nat) (body : ManifestBody) (encodedBody : Bytes) :
    ManifestFrameHeader where
  manifestSeq := manifestSeq
  kind := body.kind
  bodyLen := encodedBody.length
  bodyChecksum := checksum encodedBody

@[simp] theorem encode_length (header : ManifestFrameHeader) :
    header.encode.length = manifestFrameHeaderLen := by
  simp [ManifestFrameHeader.encode, manifestFrameHeaderLen]

theorem encodeParts_eq_ok : encodeParts manifestSeq body = .ok bytes ↔
    manifestSeq ≠ 0 ∧ ∃ encodedBody, body.encode = .ok encodedBody ∧
      manifestFrameHeaderLen + encodedBody.length ≤ wordMax ∧
      (headerOf manifestSeq body encodedBody).encode ++ encodedBody = bytes := by
  simp only [encodeParts, bind_eq_ok, ensure_eq_ok, orError_eq_ok,
    toWord_eq_some, checkedAdd_eq_some, pure_eq_ok, decide_eq_true_eq]
  constructor
  · rintro ⟨_, nonzero, encodedBody, encoded, _, ⟨rfl, -⟩, _, ⟨rfl, fits⟩, rfl⟩
    exact ⟨nonzero, encodedBody, encoded, fits, rfl⟩
  · rintro ⟨nonzero, encodedBody, encoded, fits, rfl⟩
    exact ⟨(), nonzero, encodedBody, encoded, _, ⟨rfl, by omega⟩, _, ⟨rfl, fits⟩, rfl⟩

theorem header_decode_encode {encodedBody : Bytes} (nonzero : manifestSeq ≠ 0)
    (seq : manifestSeq ≤ wordMax) (length : encodedBody.length ≤ wordMax) :
    ManifestFrameHeader.decode (headerOf manifestSeq body encodedBody).encode =
      .ok (headerOf manifestSeq body encodedBody) := by
  have known : body.kind = releaseKind ∨ body.kind = segmentSealedKind ∨
      body.kind = segmentRemovedKind := by
    cases body <;> simp [ManifestBody.kind]
  have kind : body.kind ≤ wordMax := by
    rcases known with known | known | known <;> rw [known] <;> decide
  rw [ManifestFrameHeader.decode, exact_of_length (encode_length _)]
  simp [ManifestFrameHeader.encode, headerOf, checksumMatches_withChecksum, seq, kind, length,
    checksum_le, nonzero, known, or_assoc]

/-- **A frame that was encoded reads back as itself.** Its header announces the rest of its bytes,
and the rest is its body. -/
theorem decode_encodeParts (seq : manifestSeq ≤ wordMax) (fits : body.Representable)
    (encoded : encodeParts manifestSeq body = .ok bytes) :
    ∃ header, ManifestFrameHeader.decode (slice bytes 0 manifestFrameHeaderLen) = .ok header ∧
      header.manifestSeq = manifestSeq ∧
      bytes.length = manifestFrameHeaderLen + header.bodyLen ∧ bytes.length ≤ wordMax ∧
      decode header (slice bytes manifestFrameHeaderLen header.bodyLen) =
        .ok { manifestSeq := manifestSeq, body := body } := by
  obtain ⟨nonzero, encodedBody, bodyEncoded, sized, rfl⟩ := encodeParts_eq_ok.mp encoded
  have readBody := ManifestBody.decode_encode fits bodyEncoded
  refine ⟨headerOf manifestSeq body encodedBody, ?_, rfl, ?_, ?_, ?_⟩
  · rw [slice_append_left (by simp), slice_all (encode_length _)]
    exact header_decode_encode nonzero seq (by omega)
  · rw [List.length_append, encode_length]
    rfl
  · rw [List.length_append, encode_length]
    exact sized
  · rw [slice_append_right (by simp), encode_length, Nat.sub_self]
    simp [decode, headerOf, slice_all, readBody]

end ManifestFrame

end Camus
