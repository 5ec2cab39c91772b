/-
**The bytes of an epoch.**

What one append unit looks like on disk, as a function of its stream, its first sequence and its
records, and how the three readers and writers of an epoch see it.

* `PreparedEpoch.new_eq_ok`, `prepareEpochWrite_eq_ok` — the writer produces `Epoch.bytes`, and
  refuses only what does not fit 64 bits.
* `scanEpoch_bytes` — the scanner reads those bytes back as the records the writer reported.
* `scanEpoch_torn` — of a proper prefix of those bytes the scanner finds nothing.
-/

import Camus.Storage.Segment
import Mathlib.Algebra.BigOperators.Group.List.Basic
import Mathlib.Algebra.Order.BigOperators.Group.List
import Mathlib.Algebra.Order.Group.Nat

set_option linter.unusedSectionVars false

namespace Camus

open Codec Checked Disk FaultIo Result

variable {path : Artifact} {before : Bytes} {start firstSequence : Nat}
  {described next : Nat × List Bytes} {streamId : StreamId}

/-! ### Epochs -/

/-- One append unit with the sequence of its first record. -/
structure Epoch where
  streamId : StreamId
  firstSequence : Nat
  records : List Record
deriving DecidableEq

/-- The bytes of a record with its descriptor. -/
def Record.length (record : Record) : Nat :=
  recordDescriptorLen + record.metadata.length + record.payload.length

/-- The bytes of some records with their descriptors. -/
def recordsLength (records : List Record) : Nat := (records.map Record.length).sum

@[simp] theorem recordsLength_nil : recordsLength [] = 0 := rfl

@[simp] theorem recordsLength_cons (record : Record) (rest : List Record) :
    recordsLength (record :: rest) = record.length + recordsLength rest := by
  simp [recordsLength]

theorem length_mul_le_recordsLength (records : List Record) :
    records.length * recordDescriptorLen ≤ recordsLength records := by
  induction records with
  | nil => simp
  | cons record rest ih =>
    rw [recordsLength_cons, List.length_cons, Nat.succ_mul]
    have : recordDescriptorLen ≤ record.length := by unfold Record.length; omega
    omega

namespace Epoch

/-- The bytes of an epoch. -/
def length (epoch : Epoch) : Nat := epochHeaderLen + recordsLength epoch.records + epochCommitLen

/-- An epoch that can be written: it has records, and its sequences and its length are words. -/
structure Valid (epoch : Epoch) : Prop where
  nonempty : epoch.records ≠ []
  interval : epoch.firstSequence + (epoch.records.length - 1) ≤ wordMax
  sized : epoch.length ≤ wordMax

theorem length_pos (epoch : Epoch) : epochHeaderLen + epochCommitLen ≤ epoch.length := by
  unfold length
  omega

end Epoch

section

variable [Hasher]

/-- The descriptor of a record. -/
def Record.descriptor (record : Record) : RecordDescriptor :=
  ⟨record.metadata.length, record.payload.length, checksum record.metadata,
    checksum record.payload⟩

/-- A record on disk. -/
def Record.bytes (record : Record) : Bytes :=
  record.descriptor.encode ++ (record.metadata ++ record.payload)

@[simp] theorem Record.bytes_length (record : Record) : record.bytes.length = record.length := by
  simp [Record.bytes, Record.length, Nat.add_assoc]

theorem Record.descriptor_valid {record : Record} (sized : record.length ≤ wordMax) :
    record.descriptor.Valid :=
  ⟨sized, checksum_le _, checksum_le _⟩

/-- The bytes of some records. -/
def recordsBytes (records : List Record) : Bytes := records.flatMap Record.bytes

@[simp] theorem recordsBytes_cons (record : Record) (rest : List Record) :
    recordsBytes (record :: rest) = record.bytes ++ recordsBytes rest := by
  simp [recordsBytes]

@[simp] theorem recordsBytes_length (records : List Record) :
    (recordsBytes records).length = recordsLength records := by
  induction records with
  | nil => rfl
  | cons record rest ih => simp [ih]

/-- Where a record of a stream lies that starts at an offset. -/
def Record.stored (streamId : StreamId) (sequence offset : Nat) (record : Record) : StoredRecord where
  streamId := streamId
  sequence := sequence
  descriptorOffset := offset
  metadataOffset := offset + recordDescriptorLen
  metadataLen := record.metadata.length
  metadataChecksum := checksum record.metadata
  payloadOffset := offset + recordDescriptorLen + record.metadata.length
  payloadLen := record.payload.length
  payloadChecksum := checksum record.payload
  released := false

/-- Where records lie that follow one another. -/
def storedRecords (streamId : StreamId) : Nat → Nat → List Record → List StoredRecord
  | _, _, [] => []
  | sequence, offset, record :: rest =>
    record.stored streamId sequence offset ::
      storedRecords streamId (sequence + 1) (offset + record.length) rest

@[simp] theorem storedRecords_length (streamId : StreamId) (sequence offset : Nat)
    (records : List Record) :
    (storedRecords streamId sequence offset records).length = records.length := by
  induction records generalizing sequence offset with
  | nil => rfl
  | cons record rest ih => simp [storedRecords, ih]

namespace Epoch

/-- The header of an epoch. -/
def header (epoch : Epoch) : EpochHeader :=
  ⟨epoch.streamId, epoch.firstSequence, epoch.records.length, recordsLength epoch.records⟩

/-- The header of an epoch on disk. -/
def headerBytes (epoch : Epoch) : Bytes :=
  withChecksum (epochMagic ++ (word epoch.streamId.val ++ (word epoch.firstSequence ++
    (word epoch.records.length ++ word (recordsLength epoch.records)))))

/-- The descriptors of an epoch. -/
def descriptors (epoch : Epoch) : List Bytes :=
  epoch.records.map fun record => record.descriptor.encode

/-- The commit of an epoch that starts at an offset. -/
def commit (start : Nat) (epoch : Epoch) : Bytes :=
  EpochCommit.encode ⟨start, epoch.length, epochDigest epoch.headerBytes epoch.descriptors⟩

/-- **An epoch on disk**, starting at an offset of its file. -/
def bytes (start : Nat) (epoch : Epoch) : Bytes :=
  epoch.headerBytes ++ (recordsBytes epoch.records ++ epoch.commit start)

/-- The records of an epoch that starts at an offset. -/
def stored (start : Nat) (epoch : Epoch) : List StoredRecord :=
  storedRecords epoch.streamId epoch.firstSequence (start + epochHeaderLen) epoch.records

/-- An epoch as the writer prepares it. -/
def prepared (epoch : Epoch) : PreparedEpoch where
  streamId := epoch.streamId
  firstSequence := epoch.firstSequence
  encodedBytes := epoch.length
  header := epoch.headerBytes
  descriptors := epoch.descriptors
  records := epoch.records

@[simp] theorem headerBytes_length (epoch : Epoch) : epoch.headerBytes.length = epochHeaderLen := by
  simp [headerBytes, epochHeaderLen]

@[simp] theorem commit_length (start : Nat) (epoch : Epoch) :
    (epoch.commit start).length = epochCommitLen := by
  simp [commit]

@[simp] theorem bytes_length (start : Nat) (epoch : Epoch) :
    (epoch.bytes start).length = epoch.length := by
  simp [bytes, length, Nat.add_assoc]

@[simp] theorem stored_length (start : Nat) (epoch : Epoch) :
    (epoch.stored start).length = epoch.records.length := by
  simp [stored]

theorem header_validate {epoch : Epoch} (valid : epoch.Valid) : epoch.header.validate = .ok () := by
  have enough := length_mul_le_recordsLength epoch.records
  have sized := valid.sized
  unfold length at sized
  rw [EpochHeader.validate_eq_ok]
  exact ⟨by simpa [header] using valid.nonempty, valid.interval,
    by simp only [header]; omega, enough⟩

theorem header_encode {epoch : Epoch} (valid : epoch.Valid) :
    epoch.header.encode = .ok epoch.headerBytes :=
  EpochHeader.encode_eq_ok.mpr ⟨header_validate valid, rfl⟩

theorem header_decode {epoch : Epoch} (valid : epoch.Valid) :
    EpochHeader.decode epoch.headerBytes = .ok epoch.header := by
  have sized := valid.sized
  unfold length at sized
  exact EpochHeader.decode_encode (by simp only [header]; omega) (header_encode valid)

theorem headerBytes_magic (epoch : Epoch) : slice epoch.headerBytes 0 8 = epochMagic := by
  simp [headerBytes]

theorem commit_decode {epoch : Epoch} (room : start + epoch.length ≤ wordMax) :
    EpochCommit.decode (epoch.commit start) =
      .ok ⟨start, epoch.length, epochDigest epoch.headerBytes epoch.descriptors⟩ :=
  EpochCommit.decode_encode (by simp only; omega) (by simp only; omega) (digest_le _)

end Epoch

/-! ### The writer -/

theorem describeRecord_eq_ok {record : Record} :
    describeRecord described record = .ok next ↔ record.length ≤ wordMax ∧
      described.1 + record.length ≤ wordMax ∧
      next = (described.1 + record.length, described.2 ++ [record.descriptor.encode]) := by
  simp only [describeRecord, bind_eq_ok, mapError_eq_ok, orError_eq_ok,
    pure_eq_ok, RecordDescriptor.new_eq_ok, RecordDescriptor.encodedLen_eq_ok,
    checkedAdd_eq_some]
  constructor
  · rintro ⟨_, ⟨-, -, rfl⟩, _, ⟨rfl, fits⟩, _, ⟨rfl, room⟩, rfl⟩
    exact ⟨fits, room, rfl⟩
  · rintro ⟨fits, room, rfl⟩
    have length : record.length =
        recordDescriptorLen + record.metadata.length + record.payload.length := rfl
    exact ⟨_, ⟨by omega, by omega, rfl⟩, _, ⟨rfl, fits⟩, _, ⟨rfl, room⟩, rfl⟩

theorem describeRecords_eq_ok {records : List Record} (bounded : described.1 ≤ wordMax) :
    tryFold describeRecord described records = .ok next ↔
      described.1 + recordsLength records ≤ wordMax ∧
      next = (described.1 + recordsLength records,
        described.2 ++ records.map fun record => record.descriptor.encode) := by
  induction records generalizing described with
  | nil => simp [bounded, eq_comm]
  | cons record rest ih =>
    rw [tryFold_cons, bind_eq_ok]
    constructor
    · rintro ⟨_, head, tail⟩
      obtain ⟨-, room, rfl⟩ := describeRecord_eq_ok.mp head
      obtain ⟨total, rfl⟩ := (ih room).mp tail
      simp only [recordsLength_cons, List.map_cons, List.append_assoc, List.singleton_append]
      exact ⟨by simp only at total; omega, by rw [Nat.add_assoc]⟩
    · rintro ⟨room, rfl⟩
      rw [recordsLength_cons] at room
      have fits : described.1 + record.length ≤ wordMax := by omega
      refine ⟨_, describeRecord_eq_ok.mpr ⟨by omega, fits, rfl⟩, (ih fits).mpr ⟨?_, ?_⟩⟩
      · simp only
        omega
      · simp [Nat.add_assoc]

/-- **The writer accepts exactly the valid epochs** and prepares their bytes. -/
theorem PreparedEpoch.new_eq_ok {records : List Record} {prepared : PreparedEpoch} :
    PreparedEpoch.new streamId firstSequence records = .ok prepared ↔
      Epoch.Valid ⟨streamId, firstSequence, records⟩ ∧
        prepared = Epoch.prepared ⟨streamId, firstSequence, records⟩ := by
  have start : ((0, []) : Nat × List Bytes).1 ≤ wordMax := Nat.zero_le _
  simp only [PreparedEpoch.new, bind_eq_ok, ensure_eq_ok, orError_eq_ok,
    mapError_eq_ok, pure_eq_ok, toWord_eq_some, checkedAdd_eq_some,
    describeRecords_eq_ok start, EpochHeader.encode_eq_ok,
    Option.bind_eq_bind, Option.bind_eq_some_iff, decide_eq_true_eq]
  constructor
  · rintro ⟨_, nonempty, _, ⟨rfl, -⟩, _, ⟨rfl, interval⟩, _, ⟨-, rfl⟩, _, ⟨-, rfl⟩, _,
      ⟨_, ⟨rfl, -⟩, rfl, sized⟩, rfl⟩
    simp only [Nat.zero_add] at sized
    refine ⟨⟨nonempty, interval, sized⟩, ?_⟩
    simp [Epoch.prepared, Epoch.headerBytes, Epoch.descriptors, Epoch.length]
  · rintro ⟨valid, rfl⟩
    have sized := valid.sized
    have enough := length_mul_le_recordsLength records
    have header := Epoch.header_validate valid
    simp only [Epoch.length] at sized
    unfold recordDescriptorLen at enough
    refine ⟨(), valid.nonempty, _, ⟨rfl, by omega⟩, _, ⟨rfl, valid.interval⟩, _,
      ⟨by omega, rfl⟩, _, ⟨?_, rfl⟩, _, ⟨_, ⟨rfl, ?_⟩, rfl, ?_⟩, ?_⟩
    · simpa [Epoch.header] using header
    · simp only [Nat.zero_add]
      omega
    · simpa using sized
    · simp [Epoch.prepared, Epoch.headerBytes, Epoch.descriptors, Epoch.length]

theorem placeRecords_descriptors {path : Artifact} {streamId : StreamId} {firstSequence : Nat}
    {records : List Record} {index offset : Nat} {placed : List StoredRecord × Nat}
    (sized : recordsLength records ≤ wordMax)
    (interval : firstSequence + (index + records.length - 1) ≤ wordMax)
    (bounded : offset ≤ wordMax) :
    placeRecords path streamId firstSequence index offset
        (records.map fun record => record.descriptor.encode) = .ok placed ↔
      offset + recordsLength records ≤ wordMax ∧
      placed = (storedRecords streamId (firstSequence + index) offset records,
        offset + recordsLength records) := by
  induction records generalizing index offset placed with
  | nil => simp [placeRecords, storedRecords, bounded, eq_comm]
  | cons record rest ih =>
    rw [recordsLength_cons] at sized
    rw [List.length_cons] at interval
    have length : record.length =
        recordDescriptorLen + record.metadata.length + record.payload.length := rfl
    have decoded : RecordDescriptor.decode record.descriptor.encode = .ok record.descriptor :=
      RecordDescriptor.decode_encode (Record.descriptor_valid (by omega))
    simp only [List.map_cons, placeRecords, malformed, decoded, bind_eq_ok,
      mapError_eq_ok, Except.ok.injEq, orError_eq_ok, checkedAdd_eq_some,
      pure_eq_ok]
    constructor
    · rintro ⟨_, rfl, _, ⟨rfl, -⟩, _, ⟨rfl, -⟩, _, ⟨rfl, -⟩, _, ⟨rfl, room⟩, _, tail, rfl⟩
      have finish : offset + recordDescriptorLen + record.descriptor.metadataLen +
          record.descriptor.payloadLen = offset + record.length := by
        simp only [Record.descriptor]
        omega
      rw [finish] at room tail
      obtain ⟨total, rfl⟩ := (ih (by omega) (by omega) room).mp tail
      rw [recordsLength_cons]
      exact ⟨by omega, by rw [Nat.add_assoc offset record.length (recordsLength rest)]; rfl⟩
    · rintro ⟨room, rfl⟩
      rw [recordsLength_cons] at room
      refine ⟨_, rfl, _, ⟨rfl, by omega⟩, _, ⟨rfl, ?_⟩, _, ⟨rfl, by omega⟩, _, ⟨rfl, ?_⟩, _,
        (ih (by omega) (by omega) ?_).mpr ⟨?_, rfl⟩, ?_⟩
      all_goals simp only [Record.descriptor]
      · omega
      · omega
      · omega
      · omega
      · simp only [storedRecords, recordsLength_cons, Record.stored, length]
        simp [Nat.add_assoc]

/-- **The writer places an epoch** wherever its end is a word. -/
theorem prepareEpochWrite_eq_ok {epoch : Epoch} {write : PendingEpochWrite} (valid : epoch.Valid) :
    prepareEpochWrite path start epoch.prepared = .ok write ↔ start + epoch.length ≤ wordMax ∧
      write = ⟨epoch.prepared, epoch.stored start, epoch.commit start, start + epoch.length⟩ := by
  have sized := valid.sized
  have interval := valid.interval
  have length : epoch.length = epochHeaderLen + recordsLength epoch.records + epochCommitLen := rfl
  have place {offset : Nat} {placed : List StoredRecord × Nat} (bounded : offset ≤ wordMax) :=
    @placeRecords_descriptors _ path epoch.streamId epoch.firstSequence epoch.records 0 offset placed
      (by omega) (by omega) bounded
  simp only [prepareEpochWrite, Epoch.prepared, Epoch.descriptors, bind_eq_ok,
    orError_eq_ok, checkedAdd_eq_some, pure_eq_ok]
  constructor
  · rintro ⟨_, ⟨rfl, bounded⟩, placed, found, _, ⟨rfl, room⟩, rfl⟩
    obtain ⟨-, rfl⟩ := (place bounded).mp found
    exact ⟨by simp only at room; omega, by simp [Epoch.stored, Epoch.commit, Epoch.descriptors,
      length, Nat.add_assoc]⟩
  · rintro ⟨room, rfl⟩
    refine ⟨_, ⟨rfl, by omega⟩, _, (place (by omega)).mpr ⟨by omega, rfl⟩, _, ⟨rfl, ?_⟩, ?_⟩
    · simp only
      omega
    · simp [Epoch.stored, Epoch.commit, Epoch.descriptors, length, Nat.add_assoc]

theorem flatMap_recordSlices (records : List Record) :
    (records.zip (records.map fun record => record.descriptor.encode)).flatMap recordSlices =
      recordsBytes records := by
  induction records with
  | nil => rfl
  | cons record rest ih =>
    simp only [List.map_cons, List.zip_cons_cons, List.flatMap_cons, ih, recordsBytes_cons]
    rfl

theorem PendingEpochWrite.bytes_prepared (start : Nat) (epoch : Epoch) (records : List StoredRecord)
    (endOffset : Nat) :
    PendingEpochWrite.bytes ⟨epoch.prepared, records, epoch.commit start, endOffset⟩ =
      epoch.bytes start := by
  simp only [PendingEpochWrite.bytes, Epoch.prepared, Epoch.descriptors, flatMap_recordSlices]
  rfl

/-! ### The scanner -/

theorem scanRecords_bytes {path : Artifact} {epoch : Epoch} {records : List Record}
    {before after : Bytes} {index : Nat}
    (interval : epoch.firstSequence + (index + records.length - 1) ≤ wordMax)
    (room : before.length + recordsLength records ≤ wordMax) :
    scanRecords path (before ++ (recordsBytes records ++ after)) epoch.header records.length index
        before.length =
      .ok (some (storedRecords epoch.streamId (epoch.firstSequence + index) before.length records,
        records.map (fun record => record.descriptor.encode),
        before.length + recordsLength records)) := by
  induction records generalizing index before with
  | nil => rfl
  | cons record rest ih =>
    rw [recordsLength_cons] at room
    rw [List.length_cons] at interval
    have length : record.length =
        recordDescriptorLen + record.metadata.length + record.payload.length := rfl
    have total : (before ++ (recordsBytes (record :: rest) ++ after)).length =
        before.length + (record.length + (recordsLength rest + after.length)) := by
      simp
    have encoded : slice (before ++ (recordsBytes (record :: rest) ++ after)) before.length
        recordDescriptorLen = record.descriptor.encode := by
      rw [recordsBytes_cons, Record.bytes, List.append_assoc, List.append_assoc]
      exact slice_append_exact rfl (RecordDescriptor.encode_length _)
    have decoded : RecordDescriptor.decode record.descriptor.encode = .ok record.descriptor :=
      RecordDescriptor.decode_encode (Record.descriptor_valid (by omega))
    have finish : before.length + recordDescriptorLen + record.descriptor.metadataLen +
        record.descriptor.payloadLen = (before ++ record.bytes).length := by
      rw [List.length_append, Record.bytes_length]
      simp only [Record.descriptor]
      omega
    have tail := @ih (before ++ record.bytes) (index + 1) (by omega)
      (by rw [List.length_append, Record.bytes_length]; omega)
    rw [List.append_assoc, ← List.append_assoc record.bytes, ← recordsBytes_cons] at tail
    rw [List.length_cons, scanRecords, if_neg (by omega)]
    simp only [encoded, malformed, decoded, mapError]
    rw [ok_bind, checkedAdd_of_le (by omega), orError_some, ok_bind,
      checkedAdd_of_le (by simp only [Record.descriptor]; omega), orError_some,
      ok_bind, checkedAdd_of_le (by simp only [Record.descriptor]; omega),
      orError_some, ok_bind, finish,
      if_neg (by rw [total, List.length_append, Record.bytes_length]; omega),
      checkedAdd_of_le (by simp only [Epoch.header]; omega), orError_some, ok_bind,
      tail, ok_bind]
    simp only [List.length_append, Record.bytes_length, storedRecords, Record.stored,
      Record.descriptor, Epoch.header, recordsLength_cons, List.map_cons]
    simp [Nat.add_assoc, Pure.pure, Except.pure]

/-- **The scanner reads an epoch back** as the records the writer reported. -/
theorem scanEpoch_bytes {path : Artifact} {epoch : Epoch} {before after : Bytes}
    (valid : epoch.Valid) (room : before.length + epoch.length ≤ wordMax) :
    scanEpoch path (before ++ (epoch.bytes before.length ++ after)) before.length =
      .ok (.complete (epoch.stored before.length) (epoch.commit before.length)
        (before.length + epoch.length)) := by
  have length : epoch.length = epochHeaderLen + recordsLength epoch.records + epochCommitLen := rfl
  have interval := valid.interval
  have total : (before ++ (epoch.bytes before.length ++ after)).length =
      before.length + (epoch.length + after.length) := by simp
  have split : before ++ (epoch.bytes before.length ++ after) =
      (before ++ epoch.headerBytes) ++
        (recordsBytes epoch.records ++ (epoch.commit before.length ++ after)) := by
    simp only [Epoch.bytes, List.append_assoc]
  have headerEnd : (before ++ epoch.headerBytes).length = before.length + epochHeaderLen := by simp
  have header : slice (before ++ (epoch.bytes before.length ++ after)) before.length
      epochHeaderLen = epoch.headerBytes := by
    rw [Epoch.bytes, List.append_assoc]
    exact slice_append_exact rfl (Epoch.headerBytes_length epoch)
  have records := @scanRecords_bytes _ path epoch epoch.records (before ++ epoch.headerBytes)
    (epoch.commit before.length ++ after) 0 (by omega) (by omega)
  rw [← split, headerEnd] at records
  have commit : slice (before ++ (epoch.bytes before.length ++ after))
      (before.length + epochHeaderLen + recordsLength epoch.records) epochCommitLen =
        epoch.commit before.length := by
    rw [split, ← List.append_assoc]
    exact slice_append_exact (by simp; omega) (Epoch.commit_length _ _)
  unfold scanEpoch
  simp only [header, malformed, Epoch.header_decode valid, mapError]
  rw [ok_bind]
  simp only [Epoch.header]
  simp only [Option.bind_eq_bind]
  rw [checkedAdd_of_le (by omega), Option.bind_some, checkedAdd_of_le (by omega),
    orError_some, ok_bind, checkedAdd_of_le (by omega), orError_some,
    ok_bind, if_neg (by rw [total]; omega), checkedAdd_of_le (by omega),
    orError_some, ok_bind]
  simp only [Epoch.header, Nat.add_zero] at records
  rw [records, ok_bind]
  simp only
  unfold scanCommit
  rw [ensure_bind_of_true (by simp), if_neg (by rw [total]; omega), commit]
  simp only [malformed, Epoch.commit_decode room, mapError, Option.bind_eq_bind]
  rw [ok_bind, checkedAdd_of_le (by omega), Option.bind_some, checkedAdd_of_le (by omega),
    orError_some, ok_bind, ensure_bind_of_true (by simp [length]),
    ensure_bind_of_true (by simp [Epoch.descriptors]), checkedAdd_of_le (by omega),
    orError_some, ok_bind]
  rw [length]
  simp [Epoch.stored, Pure.pure, Except.pure, Nat.add_assoc]

/-- **Of a proper prefix of an epoch the scanner finds nothing.** -/
theorem scanEpoch_torn {epoch : Epoch} {torn : Bytes} (valid : epoch.Valid)
    (room : before.length + epoch.length ≤ wordMax) (part : torn <+: epoch.bytes before.length)
    (proper : torn.length < epoch.length) (headed : epochHeaderLen ≤ torn.length) :
    scanEpoch path (before ++ torn) before.length = .ok .incomplete := by
  have length : epoch.length = epochHeaderLen + recordsLength epoch.records + epochCommitLen := rfl
  have header : slice (before ++ torn) before.length epochHeaderLen = epoch.headerBytes := by
    obtain ⟨rest, whole⟩ := part
    have same : slice (torn ++ rest) 0 epochHeaderLen = slice torn 0 epochHeaderLen :=
      slice_append_left (by omega)
    rw [slice_append_right (Nat.le_refl _), Nat.sub_self, ← same, whole, Epoch.bytes,
      slice_append_left (by simp), slice_all (Epoch.headerBytes_length epoch)]
  unfold scanEpoch
  simp only [header, malformed, Epoch.header_decode valid, mapError]
  rw [ok_bind]
  simp only [Epoch.header, Option.bind_eq_bind]
  rw [checkedAdd_of_le (by omega), Option.bind_some, checkedAdd_of_le (by omega),
    orError_some, ok_bind, checkedAdd_of_le (by omega), orError_some,
    ok_bind, if_pos (by rw [List.length_append]; omega)]

end

end Camus
