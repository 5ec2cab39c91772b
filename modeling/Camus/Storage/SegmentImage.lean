/-
**The bytes of a segment.**

A segment file as a function of its creation time, its epochs and whether it is sealed, and what a
scan of it finds.

* `scanEpochs_epochs` — the scan walks over complete epochs and collects their records.
* `scanEpochs_sealed`, `scanEpochs_open` — what it does at the end: a footer ends the segment, an
  incomplete tail is cut.
* `validateScanned_image` — the checks of a scanned segment accept an image whose streams are
  contiguous.
-/

import Camus.Storage.EpochImage
import Camus.Lib.Maps
import Mathlib.Data.List.Chain

set_option linter.unusedSectionVars false

namespace Camus

open Codec Checked Disk FaultIo Result Std

variable {torn : Bytes} {epochs : List Epoch} {records : List StoredRecord} {fuel : Nat}

/-! ### Sequences of a stream -/

/-- The sequences of a stream among some records, in their order. -/
def sequencesOf (streamId : StreamId) (records : List StoredRecord) : List Nat :=
  (records.filter fun record => record.streamId = streamId).map (·.sequence)

@[simp] theorem sequencesOf_nil (streamId : StreamId) : sequencesOf streamId [] = [] := rfl

@[simp] theorem sequencesOf_append (streamId : StreamId) (left right : List StoredRecord) :
    sequencesOf streamId (left ++ right) =
      sequencesOf streamId left ++ sequencesOf streamId right := by
  simp [sequencesOf]

theorem sequencesOf_cons (streamId : StreamId) (record : StoredRecord) (rest : List StoredRecord) :
    sequencesOf streamId (record :: rest) =
      if record.streamId = streamId then record.sequence :: sequencesOf streamId rest
      else sequencesOf streamId rest := by
  by_cases same : record.streamId = streamId <;> simp [sequencesOf, same]

/-- In every stream, each record continues the one before it. -/
def Contiguous (records : List StoredRecord) : Prop :=
  ∀ streamId, (sequencesOf streamId records).IsChain fun previous next => previous + 1 = next

theorem Contiguous.of_append_left {left right : List StoredRecord}
    (contiguous : Contiguous (left ++ right)) : Contiguous left := by
  intro streamId
  have chain := contiguous streamId
  rw [sequencesOf_append] at chain
  exact (List.isChain_append.mp chain).1

/-! ### Images -/

/-- What a segment file holds. -/
structure SegmentImage where
  createdAt : Nat
  epochs : List Epoch
  sealed : Bool
deriving DecidableEq

/-- The bytes of some epochs. -/
def epochsLength (epochs : List Epoch) : Nat := (epochs.map Epoch.length).sum

@[simp] theorem epochsLength_nil : epochsLength [] = 0 := rfl

@[simp] theorem epochsLength_cons (epoch : Epoch) (rest : List Epoch) :
    epochsLength (epoch :: rest) = epoch.length + epochsLength rest := by
  simp [epochsLength]

@[simp] theorem epochsLength_append (left right : List Epoch) :
    epochsLength (left ++ right) = epochsLength left + epochsLength right := by
  simp [epochsLength]

theorem length_le_epochsLength (epochs : List Epoch) : epochs.length ≤ epochsLength epochs := by
  induction epochs with
  | nil => simp
  | cons epoch rest ih =>
    have positive := epoch.length_pos
    rw [epochsLength_cons, List.length_cons]
    unfold epochHeaderLen at positive
    omega

/-- The records of some epochs. -/
def epochRecords (epochs : List Epoch) : List Record := epochs.flatMap (·.records)

theorem sixteen_mul_records_le (epochs : List Epoch) :
    16 * (epochRecords epochs).length ≤ epochsLength epochs := by
  induction epochs with
  | nil => simp [epochRecords]
  | cons epoch rest ih =>
    have enough := length_mul_le_recordsLength epoch.records
    have length : epoch.length = epochHeaderLen + recordsLength epoch.records + epochCommitLen := rfl
    simp only [epochRecords, List.flatMap_cons, List.length_append] at ih ⊢
    rw [epochsLength_cons]
    unfold recordDescriptorLen at enough
    omega

section

variable [Hasher]

/-- Epochs that follow one another on disk. -/
def epochsBytes : Nat → List Epoch → Bytes
  | _, [] => []
  | start, epoch :: rest => epoch.bytes start ++ epochsBytes (start + epoch.length) rest

/-- The records of epochs that follow one another. -/
def storedEpochs : Nat → List Epoch → List StoredRecord
  | _, [] => []
  | start, epoch :: rest => epoch.stored start ++ storedEpochs (start + epoch.length) rest

/-- The commits of epochs that follow one another. -/
def epochsCommits : Nat → List Epoch → List Bytes
  | _, [] => []
  | start, epoch :: rest => epoch.commit start :: epochsCommits (start + epoch.length) rest

/-- The boundaries of epochs that follow one another, after some records. -/
def epochsBoundaries : Nat → Nat → List Epoch → List EpochBoundary
  | _, _, [] => []
  | count, start, epoch :: rest =>
    ⟨count + epoch.records.length, epoch.commit start⟩ ::
      epochsBoundaries (count + epoch.records.length) (start + epoch.length) rest

@[simp] theorem epochsBytes_length (start : Nat) (epochs : List Epoch) :
    (epochsBytes start epochs).length = epochsLength epochs := by
  induction epochs generalizing start with
  | nil => rfl
  | cons epoch rest ih => simp [epochsBytes, ih]

theorem epochsBytes_append (start : Nat) (left right : List Epoch) :
    epochsBytes start (left ++ right) =
      epochsBytes start left ++ epochsBytes (start + epochsLength left) right := by
  induction left generalizing start with
  | nil => simp [epochsBytes]
  | cons epoch rest ih => simp [epochsBytes, ih, Nat.add_assoc]

@[simp] theorem storedEpochs_length (start : Nat) (epochs : List Epoch) :
    (storedEpochs start epochs).length = (epochRecords epochs).length := by
  induction epochs generalizing start with
  | nil => rfl
  | cons epoch rest ih => simp [storedEpochs, epochRecords, ih]

theorem storedEpochs_append (start : Nat) (left right : List Epoch) :
    storedEpochs start (left ++ right) =
      storedEpochs start left ++ storedEpochs (start + epochsLength left) right := by
  induction left generalizing start with
  | nil => simp [storedEpochs]
  | cons epoch rest ih => simp [storedEpochs, ih, Nat.add_assoc]

theorem epochsBoundaries_append (count start : Nat) (left right : List Epoch) :
    epochsBoundaries count start (left ++ right) =
      epochsBoundaries count start left ++
        epochsBoundaries (count + (epochRecords left).length) (start + epochsLength left) right := by
  induction left generalizing count start with
  | nil => simp [epochsBoundaries, epochRecords]
  | cons epoch rest ih => simp [epochsBoundaries, epochRecords, ih, Nat.add_assoc]

@[simp] theorem epochsBoundaries_length (count start : Nat) (epochs : List Epoch) :
    (epochsBoundaries count start epochs).length = epochs.length := by
  induction epochs generalizing count start with
  | nil => rfl
  | cons epoch rest ih => simp [epochsBoundaries, ih]

@[simp] theorem epochsBoundaries_commits (count start : Nat) (epochs : List Epoch) :
    (epochsBoundaries count start epochs).map (·.commit) = epochsCommits start epochs := by
  induction epochs generalizing count start with
  | nil => rfl
  | cons epoch rest ih => simp [epochsBoundaries, epochsCommits, ih]

namespace SegmentImage

/-- The header of a segment on disk. -/
def headerBytes (rootId : RootId) (segmentId : Nat) (image : SegmentImage) : Bytes :=
  withChecksum (segmentMagic ++ (rootId.bytes ++ (word segmentId ++ word image.createdAt)))

/-- The bytes of header and epochs. -/
def dataLength (image : SegmentImage) : Nat := segmentHeaderLen + epochsLength image.epochs

/-- The bytes of the whole file. -/
def length (image : SegmentImage) : Nat :=
  image.dataLength + if image.sealed then segmentFooterLen else 0

/-- The footer of a segment. -/
def footer (rootId : RootId) (segmentId : Nat) (image : SegmentImage) : SegmentFooter where
  segmentId := segmentId
  segmentBytes := image.dataLength + segmentFooterLen
  epochCount := image.epochs.length
  segmentDigest := segmentDigest (image.headerBytes rootId segmentId)
    (epochsCommits segmentHeaderLen image.epochs)

/-- The footer on disk. -/
def footerBytes (rootId : RootId) (segmentId : Nat) (image : SegmentImage) : Bytes :=
  withChecksum (segmentFooterMagic ++ (word segmentId ++
    (word (image.dataLength + segmentFooterLen) ++ (word image.epochs.length ++
      word (image.footer rootId segmentId).segmentDigest))))

/-- Header and epochs on disk. -/
def dataBytes (rootId : RootId) (segmentId : Nat) (image : SegmentImage) : Bytes :=
  image.headerBytes rootId segmentId ++ epochsBytes segmentHeaderLen image.epochs

/-- **A segment on disk.** -/
def bytes (rootId : RootId) (segmentId : Nat) (image : SegmentImage) : Bytes :=
  image.dataBytes rootId segmentId ++
    if image.sealed then image.footerBytes rootId segmentId else []

/-- The records of a segment. -/
def stored (image : SegmentImage) : List StoredRecord := storedEpochs segmentHeaderLen image.epochs

/-- The boundaries of the epochs of a segment. -/
def boundaries (image : SegmentImage) : List EpochBoundary :=
  epochsBoundaries 0 segmentHeaderLen image.epochs

/-- An image that a segment can have. -/
structure Valid (segmentId : Nat) (image : SegmentImage) : Prop where
  identified : segmentId < wordMax
  created : image.createdAt ≤ wordMax
  nonempty : image.epochs ≠ []
  epochs : ∀ epoch ∈ image.epochs, epoch.Valid
  contiguous : Contiguous image.stored
  sized : image.length ≤ wordMax

@[simp] theorem headerBytes_length (rootId : RootId) (segmentId : Nat) (image : SegmentImage) :
    (image.headerBytes rootId segmentId).length = segmentHeaderLen := by
  simp [headerBytes, segmentHeaderLen]

@[simp] theorem footerBytes_length (rootId : RootId) (segmentId : Nat) (image : SegmentImage) :
    (image.footerBytes rootId segmentId).length = segmentFooterLen := by
  simp [footerBytes, segmentFooterLen]

@[simp] theorem dataBytes_length (rootId : RootId) (segmentId : Nat) (image : SegmentImage) :
    (image.dataBytes rootId segmentId).length = image.dataLength := by
  simp [dataBytes, dataLength]

@[simp] theorem bytes_length (rootId : RootId) (segmentId : Nat) (image : SegmentImage) :
    (image.bytes rootId segmentId).length = image.length := by
  by_cases isSealed : image.sealed = true <;> simp [bytes, length, isSealed]

@[simp] theorem stored_length (image : SegmentImage) :
    image.stored.length = (epochRecords image.epochs).length := by
  simp [stored]

theorem dataLength_le_length (image : SegmentImage) : image.dataLength ≤ image.length := by
  unfold length
  omega

theorem header_decode {rootId : RootId} {segmentId : Nat} {image : SegmentImage}
    (valid : image.Valid segmentId) :
    SegmentHeader.decode (image.headerBytes rootId segmentId) =
      .ok ⟨rootId, segmentId, image.createdAt⟩ := by
  have bounded := valid.identified
  exact SegmentHeader.decode_encode (by simp only; omega) valid.created
    (SegmentHeader.encode_eq_ok.mpr ⟨by simp only; omega, rfl⟩)

end SegmentImage

/-! ### Incomplete tails -/

/-- A part of what is written next at an offset: too short to tell, or a proper part of an epoch. -/
def TornTail (start : Nat) (torn : Bytes) : Prop :=
  torn.length < epochHeaderLen ∨ ∃ epoch : Epoch, epoch.Valid ∧ start + epoch.length ≤ wordMax ∧
    torn <+: epoch.bytes start ∧ torn.length < epoch.length

theorem tornTail_nil (start : Nat) : TornTail start [] := .inl (by decide)

/-! ### The scan of an image -/

section Scan

variable {path : Artifact} {allow : Bool} {checkpointCount : Option Nat}

theorem scanEpochs_epochs {epochs : List Epoch} (valid : ∀ epoch ∈ epochs, epoch.Valid)
    {before after : Bytes} (room : before.length + epochsLength epochs ≤ wordMax)
    {records : List StoredRecord} {boundaries : List EpochBoundary}
    (counted : records.length + (epochRecords epochs).length ≤ wordMax) (fuel : Nat) :
    scanEpochs path (before ++ (epochsBytes before.length epochs ++ after)) allow checkpointCount
        (epochs.length + fuel) before.length records boundaries =
      scanEpochs path (before ++ (epochsBytes before.length epochs ++ after)) allow checkpointCount
        fuel (before.length + epochsLength epochs)
        (records ++ storedEpochs before.length epochs)
        (boundaries ++ epochsBoundaries records.length before.length epochs) := by
  induction epochs generalizing before records boundaries with
  | nil => simp [epochsBytes, storedEpochs, epochsBoundaries]
  | cons epoch rest ih =>
    have head := valid epoch List.mem_cons_self
    have positive := epoch.length_pos
    rw [epochsLength_cons] at room
    simp only [epochRecords, List.flatMap_cons, List.length_append] at counted
    have fuelStep : (epoch :: rest).length + fuel = (rest.length + fuel) + 1 := by
      rw [List.length_cons]
      omega
    have total : (before ++ (epochsBytes before.length (epoch :: rest) ++ after)).length =
        before.length + (epoch.length + (epochsLength rest + after.length)) := by
      simp [Nat.add_assoc]
    have magic : slice (before ++ (epochsBytes before.length (epoch :: rest) ++ after))
        before.length 8 = epochMagic := by
      rw [slice_append_right (Nat.le_refl _), Nat.sub_self, epochsBytes, Epoch.bytes,
        List.append_assoc, List.append_assoc, slice_append_left (by simp [epochHeaderLen]),
        Epoch.headerBytes_magic]
    have scanned := @scanEpoch_bytes _ path epoch before
      (epochsBytes (before.length + epoch.length) rest ++ after) head (by omega)
    have later := @ih (fun other member => valid other (List.mem_cons_of_mem _ member))
      (before ++ epoch.bytes before.length)
      (by rw [List.length_append, Epoch.bytes_length]; omega)
      (records ++ epoch.stored before.length)
      (boundaries ++ [⟨records.length + epoch.records.length, epoch.commit before.length⟩])
      (by rw [List.length_append, Epoch.stored_length]; simp only [epochRecords]; omega)
    simp only [List.length_append, Epoch.bytes_length, Epoch.stored_length, List.append_assoc]
      at later
    have content : before ++ (epochsBytes before.length (epoch :: rest) ++ after) =
        before ++ (epoch.bytes before.length ++
          (epochsBytes (before.length + epoch.length) rest ++ after)) := by
      rw [epochsBytes, List.append_assoc]
    rw [fuelStep, scanEpochs, if_neg (by rw [total]; unfold epochHeaderLen at positive; omega),
      if_neg (by rw [total]; omega), magic, if_neg (by decide), content, scanned, ok_bind]
    simp only [List.length_append, Epoch.stored_length]
    rw [toWord_of_le (by omega), orError_some, ok_bind, later]
    simp only [epochsLength_cons, storedEpochs, epochsBoundaries, Nat.add_assoc,
      List.singleton_append]

/-- At an incomplete tail the scan stops and asks for a repair. -/
theorem scanEpochs_torn {before torn : Bytes} {records : List StoredRecord}
    {boundaries : List EpochBoundary} {fuel : Nat} (tail : TornTail before.length torn)
    (nonempty : torn ≠ []) (allowed : tailRepairAllowed allow checkpointCount boundaries = true) :
    scanEpochs path (before ++ torn) allow checkpointCount (fuel + 1) before.length records
        boundaries = .ok ⟨records, boundaries, none, some before.length⟩ := by
  have total : (before ++ torn).length = before.length + torn.length := List.length_append
  have positive : 0 < torn.length := List.length_pos_iff.mpr nonempty
  rw [scanEpochs, if_neg (by omega)]
  by_cases short : torn.length < epochHeaderLen
  · rw [if_pos (by omega), allowed]
    rfl
  · obtain ⟨epoch, valid, room, part, proper⟩ := tail.resolve_left short
    have magic : slice (before ++ torn) before.length 8 = epochMagic := by
      obtain ⟨rest, whole⟩ := part
      have same : slice (torn ++ rest) 0 8 = slice torn 0 8 :=
        slice_append_left (by unfold epochHeaderLen at short; omega)
      rw [slice_append_right (Nat.le_refl _), Nat.sub_self, ← same, whole, Epoch.bytes,
        slice_append_left (by simp [epochHeaderLen]), Epoch.headerBytes_magic]
    rw [if_neg (by omega), magic, if_neg (by decide),
      scanEpoch_torn valid room part proper (by omega), ok_bind]
    simp only [allowed]
    rfl

/-- At the end of the file the scan is done. -/
theorem scanEpochs_end {bytes : Bytes} {boundaries : List EpochBoundary} :
    scanEpochs path bytes allow checkpointCount fuel bytes.length records boundaries =
      .ok ⟨records, boundaries, none, none⟩ := by
  cases fuel with
  | zero => rfl
  | succ fuel => rw [scanEpochs, if_pos (Nat.le_refl _)]

end Scan

namespace SegmentImage

variable {path : Artifact} {allow : Bool} {checkpointCount : Option Nat} {rootId : RootId}
  {segmentId : Nat} {image : SegmentImage}

theorem footer_encode (valid : image.Valid segmentId) :
    (image.footer rootId segmentId).encode = .ok (image.footerBytes rootId segmentId) := by
  have bounded := valid.identified
  rw [SegmentFooter.encode_eq_ok, SegmentFooter.validate_eq_ok]
  refine ⟨⟨by simp only [footer]; omega, ?_⟩, rfl⟩
  simpa [footer] using valid.nonempty

theorem footer_representable (valid : image.Valid segmentId)
    (room : image.dataLength + segmentFooterLen ≤ wordMax) :
    (image.footer rootId segmentId).Representable where
  segmentId := Nat.le_of_lt valid.identified
  segmentBytes := room
  epochCount := by
    have enough := length_le_epochsLength image.epochs
    simp only [footer, dataLength] at room ⊢
    omega
  segmentDigest := digest_le _

theorem footer_decode (valid : image.Valid segmentId)
    (room : image.dataLength + segmentFooterLen ≤ wordMax) :
    SegmentFooter.decode (image.footerBytes rootId segmentId) =
      .ok (image.footer rootId segmentId) :=
  SegmentFooter.decode_encode (footer_representable valid room) (footer_encode valid)

theorem footerBytes_magic : slice (image.footerBytes rootId segmentId) 0 8 = segmentFooterMagic := by
  simp [footerBytes]

theorem counted (valid : image.Valid segmentId) :
    (epochRecords image.epochs).length ≤ wordMax := by
  have sized := valid.sized
  have data := dataLength_le_length image
  have enough := sixteen_mul_records_le image.epochs
  unfold dataLength at data
  omega

theorem Valid.stored_length_le (valid : image.Valid segmentId) : image.stored.length ≤ wordMax := by
  rw [stored_length]
  exact counted valid

/-- The scan reaches the end of the data of an image. -/
theorem scanEpochs_data (valid : image.Valid segmentId) (after : Bytes) (fuel : Nat) :
    scanEpochs path (image.dataBytes rootId segmentId ++ after) allow checkpointCount
        (image.epochs.length + fuel) segmentHeaderLen [] [] =
      scanEpochs path (image.dataBytes rootId segmentId ++ after) allow checkpointCount fuel
        image.dataLength image.stored image.boundaries := by
  have sized := valid.sized
  have data := dataLength_le_length image
  have walked := @scanEpochs_epochs _ path allow checkpointCount image.epochs valid.epochs
    (image.headerBytes rootId segmentId) after
    (by rw [headerBytes_length]; unfold dataLength at data; omega) [] []
    (by rw [List.length_nil, Nat.zero_add]; exact counted valid) fuel
  simp only [headerBytes_length, List.nil_append, List.length_nil] at walked
  rw [dataBytes, List.append_assoc, walked]
  rfl

/-- The scan of a sealed image finds its records and its footer. -/
theorem scanEpochs_sealed (valid : image.Valid segmentId) (isSealed : image.sealed = true) :
    scanEpochs path (image.bytes rootId segmentId) allow checkpointCount
        (image.bytes rootId segmentId).length segmentHeaderLen [] [] =
      .ok ⟨image.stored, image.boundaries, some (image.footer rootId segmentId), none⟩ := by
  have sized := valid.sized
  have whole : image.bytes rootId segmentId =
      image.dataBytes rootId segmentId ++ image.footerBytes rootId segmentId := by
    simp [bytes, isSealed]
  have length : image.length = image.dataLength + segmentFooterLen := by
    simp [SegmentImage.length, isSealed]
  have enough := length_le_epochsLength image.epochs
  obtain ⟨fuel, split⟩ : ∃ fuel, (image.bytes rootId segmentId).length =
      image.epochs.length + (fuel + 1) := by
    refine ⟨(image.bytes rootId segmentId).length - image.epochs.length - 1, ?_⟩
    rw [bytes_length, length]
    unfold dataLength segmentHeaderLen
    omega
  have total : (image.dataBytes rootId segmentId ++ image.footerBytes rootId segmentId).length =
      image.dataLength + segmentFooterLen := by simp
  have field : slice (image.dataBytes rootId segmentId ++ image.footerBytes rootId segmentId)
      image.dataLength epochHeaderLen = image.footerBytes rootId segmentId := by
    rw [slice_append_right (by simp), dataBytes_length, Nat.sub_self]
    exact slice_all (by simp [epochHeaderLen, segmentFooterLen])
  have magic : slice (image.dataBytes rootId segmentId ++ image.footerBytes rootId segmentId)
      image.dataLength 8 = segmentFooterMagic := by
    rw [slice_append_right (by simp), dataBytes_length, Nat.sub_self, footerBytes_magic]
  have decoded := @footer_decode _ rootId segmentId image valid (by omega)
  rw [split, whole, scanEpochs_data valid, scanEpochs, if_neg (by rw [total]; unfold segmentFooterLen; omega),
    if_neg (by rw [total]; unfold segmentFooterLen epochHeaderLen; omega), magic, if_pos rfl,
    ensure_bind_of_true (by rw [total]; simp), field]
  simp only [malformed, decoded, mapError]
  rfl

/-- The scan of an open image finds its records, and cuts an incomplete tail. -/
theorem scanEpochs_open (valid : image.Valid segmentId) (isOpen : image.sealed = false)
    (tail : TornTail image.dataLength torn)
    (allowed : torn ≠ [] → tailRepairAllowed allow checkpointCount image.boundaries = true) :
    scanEpochs path (image.bytes rootId segmentId ++ torn) allow checkpointCount
        (image.bytes rootId segmentId ++ torn).length segmentHeaderLen [] [] =
      .ok ⟨image.stored, image.boundaries, none,
        if torn = [] then none else some image.dataLength⟩ := by
  have whole : image.bytes rootId segmentId = image.dataBytes rootId segmentId := by
    simp [bytes, isOpen]
  have enough := length_le_epochsLength image.epochs
  obtain ⟨fuel, split⟩ : ∃ fuel, (image.bytes rootId segmentId ++ torn).length =
      image.epochs.length + (fuel + 1) := by
    refine ⟨(image.bytes rootId segmentId ++ torn).length - image.epochs.length - 1, ?_⟩
    rw [List.length_append, whole, dataBytes_length]
    unfold dataLength segmentHeaderLen
    omega
  rw [split, whole, scanEpochs_data valid]
  by_cases empty : torn = []
  · have reached : image.dataLength = (image.dataBytes rootId segmentId ++ torn).length := by
      simp [empty]
    rw [if_pos empty]
    conv_lhs => rw [reached]
    exact scanEpochs_end
  · have torned := @scanEpochs_torn _ path allow checkpointCount
      (image.dataBytes rootId segmentId) torn image.stored image.boundaries fuel
      (by rwa [dataBytes_length]) empty (allowed empty)
    rw [dataBytes_length] at torned
    rw [if_neg empty, torned]

end SegmentImage

/-! ### The checks of a scanned segment -/

/-- The number of streams with records among some. -/
def streamCount (records : List StoredRecord) : Nat := (records.map (·.streamId)).dedup.length

theorem getLast?_sequencesOf_append (streamId : StreamId) (done : List StoredRecord)
    (record : StoredRecord) :
    (sequencesOf streamId (done ++ [record])).getLast? =
      if record.streamId = streamId then some record.sequence
      else (sequencesOf streamId done).getLast? := by
  rw [sequencesOf_append, sequencesOf_cons]
  by_cases same : record.streamId = streamId <;> simp [same]

theorem followSequence_eq_ok {path : Artifact} {last : Highwaters}
    {done rest : List StoredRecord} {record : StoredRecord}
    (tracks : ∀ streamId : StreamId, last[streamId]? = (sequencesOf streamId done).getLast?)
    (contiguous : Contiguous (done ++ record :: rest)) (bounded : record.sequence ≤ wordMax) :
    followSequence path last record = .ok (last.insert record.streamId record.sequence) := by
  have chain := contiguous record.streamId
  rw [sequencesOf_append, sequencesOf_cons, if_pos rfl] at chain
  unfold followSequence
  rw [tracks]
  cases found : (sequencesOf record.streamId done).getLast? with
  | none => rfl
  | some previous =>
    have follows : previous + 1 = record.sequence :=
      (List.isChain_append.mp chain).2.2 previous found record.sequence rfl
    simp only
    rw [checkedAdd_of_le (by omega), orError_some, ok_bind,
      ensure_bind_of_true (by simp [follows])]
    rfl

/-- The contiguity check accepts contiguous records and counts their streams. -/
theorem followSequences_eq_ok {path : Artifact} {rest : List StoredRecord}
    {last : Highwaters} {done : List StoredRecord}
    (tracks : ∀ streamId : StreamId, last[streamId]? = (sequencesOf streamId done).getLast?)
    (contiguous : Contiguous (done ++ rest)) (bounded : ∀ record ∈ rest, record.sequence ≤ wordMax) :
    ∃ final : Highwaters,
      tryFold (followSequence path) last rest = .ok final ∧
        ∀ streamId : StreamId,
          final[streamId]? = (sequencesOf streamId (done ++ rest)).getLast? := by
  induction rest generalizing last done with
  | nil => exact ⟨last, rfl, by simpa using tracks⟩
  | cons record rest ih =>
    have stepped := @followSequence_eq_ok _ path last done rest record tracks contiguous
      (bounded _ List.mem_cons_self)
    have tracksNext : ∀ streamId : StreamId,
        (last.insert record.streamId record.sequence)[streamId]? =
          (sequencesOf streamId (done ++ [record])).getLast? := by
      intro streamId
      rw [getLast?_sequencesOf_append, ExtTreeMap.getElem?_insert, tracks]
      simp
    have whole : (done ++ [record]) ++ rest = done ++ record :: rest := by simp
    obtain ⟨final, folded, ends⟩ := ih tracksNext (by rwa [whole])
      fun other member => bounded other (List.mem_cons_of_mem _ member)
    rw [whole] at ends
    exact ⟨final, by rw [tryFold_cons, stepped, ok_bind, folded], ends⟩

theorem mem_of_getLast?_sequencesOf {final : Highwaters}
    (ends : ∀ streamId : StreamId, final[streamId]? = (sequencesOf streamId records).getLast?)
    (streamId : StreamId) : streamId ∈ final ↔ streamId ∈ records.map (·.streamId) := by
  rw [ExtTreeMap.mem_iff_isSome_getElem?, ends, List.getLast?_isSome]
  simp [sequencesOf]

namespace SegmentImage

variable {path : Artifact} {rootId : RootId} {segmentId : Nat} {image : SegmentImage}

theorem validateFooter_footer (valid : image.Valid segmentId) (isSealed : image.sealed = true) :
    validateFooter path segmentId image.length (image.headerBytes rootId segmentId)
      image.boundaries (image.footer rootId segmentId) = .ok () := by
  have enough := length_le_epochsLength image.epochs
  have sized := valid.sized
  have length : image.length = image.dataLength + segmentFooterLen := by simp [length, isSealed]
  have counted : image.epochs.length ≤ wordMax := by
    unfold dataLength at length
    omega
  unfold validateFooter boundaries
  rw [ensure_bind_of_true (by simp [footer]),
    ensure_bind_of_true (by simp [footer, length]), epochsBoundaries_length,
    toWord_of_le counted, orError_some, ok_bind,
    ensure_bind_of_true (by simp [footer]), epochsBoundaries_commits]
  simp [footer]

theorem mem_storedRecords {streamId : StreamId} {sequence offset : Nat} {records : List Record}
    {stored : StoredRecord} (member : stored ∈ storedRecords streamId sequence offset records) :
    stored.streamId = streamId ∧ sequence ≤ stored.sequence ∧
      stored.sequence < sequence + records.length ∧ stored.released = false := by
  induction records generalizing sequence offset with
  | nil => simp [storedRecords] at member
  | cons record rest ih =>
    rcases List.mem_cons.mp member with rfl | later
    · simp [Record.stored]
    · obtain ⟨same, low, high, unreleased⟩ := ih later
      simp only [List.length_cons]
      exact ⟨same, by omega, by omega, unreleased⟩

theorem mem_storedEpochs {start : Nat} {stored : StoredRecord}
    (member : stored ∈ storedEpochs start epochs) :
    ∃ epoch ∈ epochs, stored.streamId = epoch.streamId ∧ epoch.firstSequence ≤ stored.sequence ∧
      stored.sequence < epoch.firstSequence + epoch.records.length ∧ stored.released = false := by
  induction epochs generalizing start with
  | nil => simp [storedEpochs] at member
  | cons epoch rest ih =>
    rcases List.mem_append.mp member with first | later
    · exact ⟨epoch, List.mem_cons_self, mem_storedRecords first⟩
    · obtain ⟨other, inRest, facts⟩ := ih later
      exact ⟨other, List.mem_cons_of_mem _ inRest, facts⟩

theorem sequence_le (valid : image.Valid segmentId) :
    ∀ record ∈ image.stored, record.sequence ≤ wordMax := by
  intro record member
  obtain ⟨epoch, isEpoch, -, -, high, -⟩ := mem_storedEpochs member
  have interval := (valid.epochs epoch isEpoch).interval
  have := List.length_pos_iff.mpr (valid.epochs epoch isEpoch).nonempty
  omega

/-- **The checks of a scanned segment** accept what the scan of an image finds. -/
theorem validateScanned_image (valid : image.Valid segmentId) (repair : Option Nat) :
    validateScanned path segmentId image.length (image.headerBytes rootId segmentId)
      ⟨image.stored, image.boundaries,
        if image.sealed then some (image.footer rootId segmentId) else none, repair⟩ =
        .ok (streamCount image.stored) := by
  have nonempty : image.boundaries ≠ [] := by
    intro none
    have empty := congrArg List.length none
    rw [boundaries, epochsBoundaries_length] at empty
    exact valid.nonempty (List.length_eq_zero_iff.mp empty)
  obtain ⟨final, folded, ends⟩ := @followSequences_eq_ok _ path image.stored ∅ []
    (by simp) (by simpa using valid.contiguous) (sequence_le valid)
  have counted : final.size = streamCount image.stored :=
    Maps.size_eq_dedup_length (mem_of_getLast?_sequencesOf ends)
  unfold validateScanned
  rw [ensure_bind_of_true (by simpa using nonempty), folded, ok_bind]
  by_cases isSealed : image.sealed = true
  · rw [if_pos isSealed]
    simp only [Option.toList_some, tryMap,
      @validateFooter_footer _ path rootId segmentId image valid isSealed, ok_bind, counted]
    rfl
  · rw [if_neg isSealed, counted]
    rfl

end SegmentImage

end

end Camus
