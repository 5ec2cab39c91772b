/-
**The fixed-size structures of the format.**

Every fixed structure is a magic, its fields and a checksum over all bytes before it. Encoding
concatenates the fields; decoding checks the length, the magic, the checksum and the values, in the
order of the code. The checksum is an arbitrary fixed function (`Hasher`).

* `decode_encode` for each structure: what was encoded decodes to itself.
-/

import Camus.Basic

set_option linter.unusedSectionVars false

namespace Camus

open Checked Codec Result

variable {bytes fields : Bytes} {length offset : Nat}

/-- The checksum of the format and its streaming form over parts. -/
class Hasher where
  checksumWord : Bytes → UInt64
  digestWord : List Bytes → UInt64

/-- One more byte of the FNV-1a checksum. -/
def fnvStep (state : UInt64) (byte : UInt8) : UInt64 :=
  (state ^^^ UInt64.ofNat byte.toNat) * 1099511628211

/-- A checksum to evaluate the format with: FNV-1a. -/
@[reducible] def Hasher.fnv : Hasher where
  checksumWord bytes := bytes.foldl fnvStep 14695981039346656037
  digestWord parts := parts.flatten.foldl fnvStep 14695981039346656037

section

variable [Hasher]

/-- The checksum of some bytes. -/
def checksum (bytes : Bytes) : Nat := (Hasher.checksumWord bytes).toNat

/-- The checksum of several parts. -/
def digest (parts : List Bytes) : Nat := (Hasher.digestWord parts).toNat

theorem checksum_le (bytes : Bytes) : checksum bytes ≤ wordMax :=
  Nat.le_of_lt_succ (Hasher.checksumWord bytes).toNat_lt

theorem digest_le (parts : List Bytes) : digest parts ≤ wordMax :=
  Nat.le_of_lt_succ (Hasher.digestWord parts).toNat_lt

end

/-- The result of encoding or decoding: a value or a message. -/
abbrev FormatResult := Except String

/-- The bytes, if there are exactly as many as the structure has. -/
def exact (length : Nat) (bytes : Bytes) (name : String) : FormatResult Bytes :=
  if bytes.length = length then .ok bytes else .error s!"{name} must be exactly {length} bytes"

theorem exact_of_length {name : String} (sized : bytes.length = length) :
    exact length bytes name = .ok bytes := if_pos sized

/-- Sixteen bytes of a structure, as a root identity. -/
def RootId.fromSlice (bytes : Bytes) (offset : Nat) : RootId where
  bytes := (slice bytes offset 16 ++ List.replicate 16 0).take 16
  sized := by rw [List.length_take, List.length_append, List.length_replicate]; omega

@[simp] theorem RootId.bytes_length (rootId : RootId) : rootId.bytes.length = 16 := rootId.sized

theorem RootId.fromSlice_eq {rootId : RootId} (found : slice bytes offset 16 = rootId.bytes) :
    RootId.fromSlice bytes offset = rootId := by
  unfold RootId.fromSlice
  congr 1
  rw [found, List.take_append_of_le_length (Nat.le_of_eq rootId.sized.symm), ← rootId.sized,
    List.take_length]

/-! ### Magics and tags -/

/-- `CAMROOT1` -/
def rootMagic : Bytes := [67, 65, 77, 82, 79, 79, 84, 49]

@[simp] theorem rootMagic_length : rootMagic.length = 8 := by decide

/-- `CAMSEG01` -/
def segmentMagic : Bytes := [67, 65, 77, 83, 69, 71, 48, 49]

@[simp] theorem segmentMagic_length : segmentMagic.length = 8 := by decide

/-- `CAMEPH01` -/
def epochMagic : Bytes := [67, 65, 77, 69, 80, 72, 48, 49]

@[simp] theorem epochMagic_length : epochMagic.length = 8 := by decide

/-- `CAMCMT01` -/
def epochCommitMagic : Bytes := [67, 65, 77, 67, 77, 84, 48, 49]

@[simp] theorem epochCommitMagic_length : epochCommitMagic.length = 8 := by decide

/-- `CAMSEA01` -/
def segmentFooterMagic : Bytes := [67, 65, 77, 83, 69, 65, 48, 49]

@[simp] theorem segmentFooterMagic_length : segmentFooterMagic.length = 8 := by decide

/-- `CAMLOG01` -/
def manifestLogMagic : Bytes := [67, 65, 77, 76, 79, 71, 48, 49]

@[simp] theorem manifestLogMagic_length : manifestLogMagic.length = 8 := by decide

/-- `CAMCTL01` -/
def manifestFrameMagic : Bytes := [67, 65, 77, 67, 84, 76, 48, 49]

@[simp] theorem manifestFrameMagic_length : manifestFrameMagic.length = 8 := by decide

/-- `CAMCHK01` -/
def checkpointMagic : Bytes := [67, 65, 77, 67, 72, 75, 48, 49]

@[simp] theorem checkpointMagic_length : checkpointMagic.length = 8 := by decide

/-- The version of the format. -/
def formatVersion : Nat := 1

/-! ### Checksummed layouts -/

section

variable [Hasher]

/-- A structure's fields followed by their checksum. -/
def withChecksum (fields : Bytes) : Bytes := fields ++ word (checksum fields)

/-- The checksum at an offset is the one of all bytes before it. -/
def checksumMatches (bytes : Bytes) (offset : Nat) : Bool :=
  readWord bytes offset = checksum (slice bytes 0 offset)

@[simp] theorem withChecksum_length (fields : Bytes) :
    (withChecksum fields).length = fields.length + 8 := by
  rw [withChecksum, List.length_append, word_length]

theorem checksumMatches_withChecksum (sized : fields.length = offset) :
    checksumMatches (withChecksum fields) offset = true := by
  subst sized
  unfold checksumMatches withChecksum
  rw [readWord_append_right (Nat.le_refl _), Nat.sub_self, readWord_word (checksum_le fields),
    slice_append_left (by omega), slice_all rfl]
  exact decide_eq_true rfl

@[simp] theorem readWord_withChecksum (inside : offset + 8 ≤ fields.length) :
    readWord (withChecksum fields) offset = readWord fields offset :=
  readWord_append_left inside

@[simp] theorem slice_withChecksum (inside : offset + length ≤ fields.length) :
    slice (withChecksum fields) offset length = slice fields offset length :=
  slice_append_left inside

end

/-! ### The root superblock -/

/-- `ROOT`: the identity of a root. -/
structure RootSuperblock where
  rootId : RootId
deriving DecidableEq

namespace RootSuperblock

variable [Hasher]

/-- The forty bytes of `ROOT`. -/
def encode (root : RootSuperblock) : Bytes :=
  withChecksum (rootMagic ++ (word formatVersion ++ root.rootId.bytes))

/-- Reads `ROOT`. -/
def decode (encoded : Bytes) : FormatResult RootSuperblock := do
  let bytes ← exact rootSuperblockLen encoded "ROOT superblock"
  ensure (slice bytes 0 8 = rootMagic) "invalid ROOT magic"
  ensure (readWord bytes 8 = formatVersion) "unsupported ROOT format version"
  ensure (checksumMatches bytes 32) "ROOT checksum mismatch"
  return { rootId := RootId.fromSlice bytes 16 }

end RootSuperblock

/-! ### Segment headers -/

/-- The first bytes of a data segment. -/
structure SegmentHeader where
  rootId : RootId
  segmentId : Nat
  createdAtUnixMillis : Nat
deriving DecidableEq

namespace SegmentHeader

variable [Hasher]

/-- The forty-eight bytes of a segment header. -/
def encode (header : SegmentHeader) : FormatResult Bytes := do
  ensure (header.segmentId ≠ wordMax) "u64::MAX is not a valid segment ID"
  return withChecksum (segmentMagic ++ (header.rootId.bytes ++
    (word header.segmentId ++ word header.createdAtUnixMillis)))

/-- Reads a segment header. -/
def decode (encoded : Bytes) : FormatResult SegmentHeader := do
  let bytes ← exact segmentHeaderLen encoded "segment header"
  ensure (slice bytes 0 8 = segmentMagic) "invalid segment header magic"
  ensure (checksumMatches bytes 40) "segment header checksum mismatch"
  let segmentId := readWord bytes 24
  ensure (segmentId ≠ wordMax) "u64::MAX is not a valid segment ID"
  return {
    rootId := RootId.fromSlice bytes 8
    segmentId := segmentId
    createdAtUnixMillis := readWord bytes 32 }

theorem encode_eq_ok {header : SegmentHeader} :
    header.encode = .ok bytes ↔ header.segmentId ≠ wordMax ∧
      withChecksum (segmentMagic ++ (header.rootId.bytes ++
        (word header.segmentId ++ word header.createdAtUnixMillis))) = bytes := by
  simp [encode]

theorem encode_length {header : SegmentHeader} (encoded : header.encode = .ok bytes) :
    bytes.length = segmentHeaderLen := by
  obtain ⟨-, rfl⟩ := encode_eq_ok.mp encoded
  simp [segmentHeaderLen]

theorem decode_encode {header : SegmentHeader} (fits : header.segmentId ≤ wordMax)
    (created : header.createdAtUnixMillis ≤ wordMax) (encoded : header.encode = .ok bytes) :
    decode bytes = .ok header := by
  have sized := encode_length encoded
  obtain ⟨valid, rfl⟩ := encode_eq_ok.mp encoded
  have identity : RootId.fromSlice (withChecksum (segmentMagic ++ (header.rootId.bytes ++
      (word header.segmentId ++ word header.createdAtUnixMillis)))) 8 = header.rootId :=
    RootId.fromSlice_eq (by simp)
  rw [decode, exact_of_length sized, ok_bind, identity]
  simp [checksumMatches_withChecksum, fits, created, valid]

end SegmentHeader

/-! ### Record descriptors -/

/-- The lengths and checksums of one record. -/
structure RecordDescriptor where
  metadataLen : Nat
  payloadLen : Nat
  metadataChecksum : Nat
  payloadChecksum : Nat
deriving DecidableEq

namespace RecordDescriptor

/-- The bytes of a record: its descriptor, metadata and payload. -/
def encodedLen (descriptor : RecordDescriptor) : FormatResult Nat :=
  orError "record length overflows u64" do
    let metadataEnd ← checkedAdd recordDescriptorLen descriptor.metadataLen
    checkedAdd metadataEnd descriptor.payloadLen

variable [Hasher]

/-- The descriptor of a record. -/
def new (metadata payload : Bytes) : FormatResult RecordDescriptor := do
  let metadataLen ← orError "metadata length does not fit u64" (toWord metadata.length)
  let payloadLen ← orError "payload length does not fit u64" (toWord payload.length)
  return {
    metadataLen := metadataLen
    payloadLen := payloadLen
    metadataChecksum := checksum metadata
    payloadChecksum := checksum payload }

/-- The forty bytes of a descriptor. -/
def encode (descriptor : RecordDescriptor) : Bytes :=
  withChecksum (word descriptor.metadataLen ++ (word descriptor.payloadLen ++
    (word descriptor.metadataChecksum ++ word descriptor.payloadChecksum)))

/-- Reads a descriptor. -/
def decode (encoded : Bytes) : FormatResult RecordDescriptor := do
  let bytes ← exact recordDescriptorLen encoded "record descriptor"
  ensure (checksumMatches bytes 32) "record descriptor checksum mismatch"
  let descriptor : RecordDescriptor := {
    metadataLen := readWord bytes 0
    payloadLen := readWord bytes 8
    metadataChecksum := readWord bytes 16
    payloadChecksum := readWord bytes 24 }
  let _ ← descriptor.encodedLen
  return descriptor

@[simp] theorem encode_length (descriptor : RecordDescriptor) :
    descriptor.encode.length = recordDescriptorLen := by
  simp [encode, recordDescriptorLen]

/-- The fields of a descriptor are words and its record has a representable length. -/
structure Valid (descriptor : RecordDescriptor) : Prop where
  sized : recordDescriptorLen + descriptor.metadataLen + descriptor.payloadLen ≤ wordMax
  metadataChecksum : descriptor.metadataChecksum ≤ wordMax
  payloadChecksum : descriptor.payloadChecksum ≤ wordMax

theorem encodedLen_eq_ok {descriptor : RecordDescriptor} :
    descriptor.encodedLen = .ok length ↔
      recordDescriptorLen + descriptor.metadataLen + descriptor.payloadLen = length ∧
        length ≤ wordMax := by
  simp only [encodedLen, orError_eq_ok, Option.bind_eq_bind, Option.bind_eq_some_iff,
    checkedAdd_eq_some]
  constructor
  · rintro ⟨_, ⟨rfl, -⟩, rfl, fits⟩
    exact ⟨rfl, fits⟩
  · rintro ⟨rfl, fits⟩
    exact ⟨_, ⟨rfl, by omega⟩, rfl, fits⟩

theorem decode_encode {descriptor : RecordDescriptor} (valid : descriptor.Valid) :
    decode descriptor.encode = .ok descriptor := by
  have sized := valid.sized
  have metadata : descriptor.metadataLen ≤ wordMax := by omega
  have payload : descriptor.payloadLen ≤ wordMax := by omega
  have length : descriptor.encodedLen = .ok _ := encodedLen_eq_ok.mpr ⟨rfl, valid.sized⟩
  rw [decode, exact_of_length (encode_length descriptor)]
  simp [encode, checksumMatches_withChecksum, metadata, payload, valid.metadataChecksum,
    valid.payloadChecksum, length]

/-- The descriptor of a record describes it. -/
theorem new_eq_ok {metadata payload : Bytes} {descriptor : RecordDescriptor} :
    new metadata payload = .ok descriptor ↔ metadata.length ≤ wordMax ∧ payload.length ≤ wordMax ∧
      descriptor = ⟨metadata.length, payload.length, checksum metadata, checksum payload⟩ := by
  simp only [new, bind_eq_ok, orError_eq_ok, toWord_eq_some, pure_eq_ok]
  constructor
  · rintro ⟨_, ⟨rfl, first⟩, _, ⟨rfl, second⟩, rfl⟩
    exact ⟨first, second, rfl⟩
  · rintro ⟨first, second, rfl⟩
    exact ⟨_, ⟨rfl, first⟩, _, ⟨rfl, second⟩, rfl⟩

end RecordDescriptor
/-! ### Epoch headers -/

/-- The first bytes of an epoch: its stream, its sequences and the length of its records. -/
structure EpochHeader where
  streamId : StreamId
  firstSequence : Nat
  recordCount : Nat
  recordsBytes : Nat
deriving DecidableEq

namespace EpochHeader

/-- The checks of an epoch header. -/
def validate (header : EpochHeader) : FormatResult Unit := do
  ensure (header.recordCount ≠ 0) "epoch record_count must be nonzero"
  let _ ← orError "epoch sequence interval overflows u64"
    (checkedAdd header.firstSequence (header.recordCount - 1))
  let minimumRecordsBytes ← orError "minimum epoch records length overflows u64"
    (checkedMul header.recordCount recordDescriptorLen)
  ensure (minimumRecordsBytes ≤ header.recordsBytes)
    "epoch records_bytes is smaller than its record descriptors"

theorem validate_eq_ok {header : EpochHeader} :
    header.validate = .ok () ↔ header.recordCount ≠ 0 ∧
      header.firstSequence + (header.recordCount - 1) ≤ wordMax ∧
      header.recordCount * recordDescriptorLen ≤ wordMax ∧
      header.recordCount * recordDescriptorLen ≤ header.recordsBytes := by
  simp only [validate, bind_eq_ok, ensure_eq_ok, orError_eq_ok,
    checkedAdd_eq_some, checkedMul_eq_some, decide_eq_true_eq]
  constructor
  · rintro ⟨-, nonzero, _, ⟨rfl, interval⟩, _, ⟨rfl, product⟩, enough⟩
    exact ⟨nonzero, interval, product, enough⟩
  · rintro ⟨nonzero, interval, product, enough⟩
    exact ⟨(), nonzero, _, ⟨rfl, interval⟩, _, ⟨rfl, product⟩, enough⟩

variable [Hasher]

/-- The forty-eight bytes of an epoch header. -/
def encode (header : EpochHeader) : FormatResult Bytes := do
  header.validate
  return withChecksum (epochMagic ++ (word header.streamId.val ++ (word header.firstSequence ++
    (word header.recordCount ++ word header.recordsBytes))))

/-- Reads an epoch header. -/
def decode (encoded : Bytes) : FormatResult EpochHeader := do
  let bytes ← exact epochHeaderLen encoded "epoch header"
  ensure (slice bytes 0 8 = epochMagic) "invalid epoch header magic"
  ensure (checksumMatches bytes 40) "epoch header checksum mismatch"
  let header : EpochHeader := {
    streamId := Fin.ofNat _ (readWord bytes 8)
    firstSequence := readWord bytes 16
    recordCount := readWord bytes 24
    recordsBytes := readWord bytes 32 }
  header.validate
  return header

theorem encode_eq_ok {header : EpochHeader} :
    header.encode = .ok bytes ↔ header.validate = .ok () ∧
      withChecksum (epochMagic ++ (word header.streamId.val ++ (word header.firstSequence ++
        (word header.recordCount ++ word header.recordsBytes)))) = bytes := by
  simp [encode]

theorem encode_length {header : EpochHeader} (encoded : header.encode = .ok bytes) :
    bytes.length = epochHeaderLen := by
  obtain ⟨-, rfl⟩ := encode_eq_ok.mp encoded
  simp [epochHeaderLen]

theorem decode_encode {header : EpochHeader} (bounded : header.recordsBytes ≤ wordMax)
    (encoded : header.encode = .ok bytes) : decode bytes = .ok header := by
  have sized := encode_length encoded
  obtain ⟨valid, rfl⟩ := encode_eq_ok.mp encoded
  obtain ⟨nonzero, interval, product, -⟩ := validate_eq_ok.mp valid
  have stream : header.streamId.val ≤ wordMax := Nat.le_of_lt_succ header.streamId.isLt
  have sequence : header.firstSequence ≤ wordMax := by omega
  have count : header.recordCount ≤ wordMax := by
    unfold recordDescriptorLen at product
    omega
  rw [decode, exact_of_length sized]
  simp [checksumMatches_withChecksum, stream, sequence, count, bounded, valid]

theorem validate_of_decode {header : EpochHeader} (decoded : decode bytes = .ok header) :
    header.validate = .ok () := by
  simp only [decode, bind_eq_ok, pure_eq_ok] at decoded
  obtain ⟨_, -, _, -, _, -, _, valid, rfl⟩ := decoded
  exact valid

theorem interval_of_decode {header : EpochHeader} (decoded : decode bytes = .ok header) :
    header.firstSequence + header.recordCount ≤ wordMax + 1 := by
  obtain ⟨nonzero, interval, -⟩ := validate_eq_ok.mp (validate_of_decode decoded)
  omega

end EpochHeader

/-! ### Epoch commits -/

/-- The last bytes of an epoch. -/
structure EpochCommit where
  epochStart : Nat
  epochBytes : Nat
  epochDigest : Nat
deriving DecidableEq

section

variable [Hasher]

/-- The digest an epoch's commit holds: over its header and its descriptors. -/
def epochDigest (header : Bytes) (descriptors : List Bytes) : Nat := digest (header :: descriptors)

/-- The digest a segment's footer holds: over its header and the commits of its epochs. -/
def segmentDigest (header : Bytes) (commits : List Bytes) : Nat := digest (header :: commits)

end

namespace EpochCommit

variable [Hasher]

/-- The forty bytes of a commit. -/
def encode (commit : EpochCommit) : Bytes :=
  withChecksum (epochCommitMagic ++ (word commit.epochStart ++ (word commit.epochBytes ++
    word commit.epochDigest)))

/-- Reads a commit. -/
def decode (encoded : Bytes) : FormatResult EpochCommit := do
  let bytes ← exact epochCommitLen encoded "epoch commit"
  ensure (slice bytes 0 8 = epochCommitMagic) "invalid epoch commit magic"
  ensure (checksumMatches bytes 32) "epoch commit checksum mismatch"
  return {
    epochStart := readWord bytes 8
    epochBytes := readWord bytes 16
    epochDigest := readWord bytes 24 }

@[simp] theorem encode_length (commit : EpochCommit) : commit.encode.length = epochCommitLen := by
  simp [encode, epochCommitLen]

theorem decode_encode {commit : EpochCommit} (start : commit.epochStart ≤ wordMax)
    (bytes : commit.epochBytes ≤ wordMax) (digest : commit.epochDigest ≤ wordMax) :
    decode commit.encode = .ok commit := by
  rw [decode, exact_of_length (encode_length commit)]
  simp [encode, checksumMatches_withChecksum, start, bytes, digest]

end EpochCommit

/-! ### Segment footers -/

/-- The last bytes of a sealed segment. -/
structure SegmentFooter where
  segmentId : Nat
  segmentBytes : Nat
  epochCount : Nat
  segmentDigest : Nat
deriving DecidableEq

namespace SegmentFooter

/-- The checks of a footer. -/
def validate (footer : SegmentFooter) : FormatResult Unit := do
  ensure (footer.segmentId ≠ wordMax) "u64::MAX is not a valid segment ID"
  ensure (footer.epochCount ≠ 0) "sealed segment epoch_count must be nonzero"

theorem validate_eq_ok {footer : SegmentFooter} :
    footer.validate = .ok () ↔ footer.segmentId ≠ wordMax ∧ footer.epochCount ≠ 0 := by
  simp [validate]

/-- The fields of a footer are words. -/
structure Representable (footer : SegmentFooter) : Prop where
  segmentId : footer.segmentId ≤ wordMax
  segmentBytes : footer.segmentBytes ≤ wordMax
  epochCount : footer.epochCount ≤ wordMax
  segmentDigest : footer.segmentDigest ≤ wordMax

variable [Hasher]

/-- The forty-eight bytes of a footer. -/
def encode (footer : SegmentFooter) : FormatResult Bytes := do
  footer.validate
  return withChecksum (segmentFooterMagic ++ (word footer.segmentId ++ (word footer.segmentBytes ++
    (word footer.epochCount ++ word footer.segmentDigest))))

/-- Reads a footer. -/
def decode (encoded : Bytes) : FormatResult SegmentFooter := do
  let bytes ← exact segmentFooterLen encoded "segment footer"
  ensure (slice bytes 0 8 = segmentFooterMagic) "invalid segment footer magic"
  ensure (checksumMatches bytes 40) "segment footer checksum mismatch"
  let footer : SegmentFooter := {
    segmentId := readWord bytes 8
    segmentBytes := readWord bytes 16
    epochCount := readWord bytes 24
    segmentDigest := readWord bytes 32 }
  footer.validate
  return footer

theorem encode_eq_ok {footer : SegmentFooter} :
    footer.encode = .ok bytes ↔ footer.validate = .ok () ∧
      withChecksum (segmentFooterMagic ++ (word footer.segmentId ++ (word footer.segmentBytes ++
        (word footer.epochCount ++ word footer.segmentDigest)))) = bytes := by
  simp [encode]

theorem encode_length {footer : SegmentFooter} (encoded : footer.encode = .ok bytes) :
    bytes.length = segmentFooterLen := by
  obtain ⟨-, rfl⟩ := encode_eq_ok.mp encoded
  simp [segmentFooterLen]

theorem decode_encode {footer : SegmentFooter} (fits : footer.Representable)
    (encoded : footer.encode = .ok bytes) : decode bytes = .ok footer := by
  have sized := encode_length encoded
  obtain ⟨valid, rfl⟩ := encode_eq_ok.mp encoded
  rw [decode, exact_of_length sized]
  simp [checksumMatches_withChecksum, fits.segmentId, fits.segmentBytes, fits.epochCount,
    fits.segmentDigest, valid]

end SegmentFooter

/-! ### Manifest log headers -/

/-- The first bytes of the manifest log. -/
structure ManifestLogHeader where
  rootId : RootId
  baseSeq : Nat
deriving DecidableEq

namespace ManifestLogHeader

variable [Hasher]

/-- The forty bytes of a log header. -/
def encode (header : ManifestLogHeader) : Bytes :=
  withChecksum (manifestLogMagic ++ (header.rootId.bytes ++ word header.baseSeq))

/-- Reads a log header. -/
def decode (encoded : Bytes) : FormatResult ManifestLogHeader := do
  let bytes ← exact manifestLogHeaderLen encoded "manifest log header"
  ensure (slice bytes 0 8 = manifestLogMagic) "invalid manifest log header magic"
  ensure (checksumMatches bytes 32) "manifest log header checksum mismatch"
  return { rootId := RootId.fromSlice bytes 8, baseSeq := readWord bytes 24 }

@[simp] theorem encode_length (header : ManifestLogHeader) :
    header.encode.length = manifestLogHeaderLen := by
  simp [encode, manifestLogHeaderLen]

end ManifestLogHeader

end Camus
