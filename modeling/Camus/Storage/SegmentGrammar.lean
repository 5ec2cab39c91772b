/-
**The grammar of a segment file.**

What a scan accepts, stated over the bytes of a file and without the scanner: a header, epochs that
follow each other to the end of the file, and possibly a footer as its last bytes.

* `DescriptorsAt`, `EpochAt`, `EpochsAt` — descriptors, an epoch and a list of epochs at an offset of
  a file.
* `SegmentText.Describes` — a file is a segment; `EndsAt` — what may follow its epochs.
* `scanRecords_iff`, `scanEpoch_iff`, `scanEpochs_iff` — the loops of the scanner accept exactly the
  structures of the grammar, and read back what they describe.
-/

import Camus.Format.Canonical
import Camus.Storage.SegmentImage

set_option linter.unusedSectionVars false

namespace Camus

open Codec Checked Disk FaultIo Result Std

variable {allow : Bool} {bytes commit headerBytes : Bytes} {header : EpochHeader}
  {done : List StoredRecord} {finish count index start fuel segmentId fileLen : Nat}
  {baseline : Option Nat} {rootId : RootId} {scanned : Scanned} {record : StoredRecord}

/-! ### Structures of a file -/

/-- The bytes of a record: its descriptor, metadata and payload. -/
def RecordDescriptor.length (descriptor : RecordDescriptor) : Nat :=
  recordDescriptorLen + descriptor.metadataLen + descriptor.payloadLen

/-- The record that a descriptor at an offset describes. -/
def RecordDescriptor.stored (header : EpochHeader) (index offset : Nat)
    (descriptor : RecordDescriptor) : StoredRecord where
  streamId := header.streamId
  sequence := header.firstSequence + index
  descriptorOffset := offset
  metadataOffset := offset + recordDescriptorLen
  metadataLen := descriptor.metadataLen
  metadataChecksum := descriptor.metadataChecksum
  payloadOffset := offset + recordDescriptorLen + descriptor.metadataLen
  payloadLen := descriptor.payloadLen
  payloadChecksum := descriptor.payloadChecksum
  released := false

/-- The records that descriptors describe, from an index and an offset on. -/
def describedRecords (header : EpochHeader) : Nat → Nat → List RecordDescriptor → List StoredRecord
  | _, _, [] => []
  | index, offset, descriptor :: rest =>
    descriptor.stored header index offset ::
      describedRecords header (index + 1) (offset + descriptor.length) rest

/-- The bytes of descriptors in a file. -/
def describedBytes (content : Bytes) : Nat → List RecordDescriptor → List Bytes
  | _, [] => []
  | offset, descriptor :: rest =>
    slice content offset recordDescriptorLen ::
      describedBytes content (offset + descriptor.length) rest

theorem describedRecords_length (header : EpochHeader) (index offset : Nat)
    (descriptors : List RecordDescriptor) :
    (describedRecords header index offset descriptors).length = descriptors.length := by
  induction descriptors generalizing index offset with
  | nil => rfl
  | cons descriptor rest ih => rw [describedRecords, List.length_cons, List.length_cons, ih]

section

variable [Hasher]

/-- Records with their descriptors fill a file from one offset to another. -/
def DescriptorsAt (content : Bytes) : Nat → List RecordDescriptor → Nat → Prop
  | offset, [], finish => offset = finish
  | offset, descriptor :: rest, finish =>
    offset + descriptor.length ≤ content.length ∧
      RecordDescriptor.decode (slice content offset recordDescriptorLen) = .ok descriptor ∧
      DescriptorsAt content (offset + descriptor.length) rest finish

/-- The header and the descriptors of an epoch. -/
structure EpochText where
  header : EpochHeader
  descriptors : List RecordDescriptor

/-- The bytes of an epoch: header, records, commit. -/
def EpochText.length (epoch : EpochText) : Nat :=
  epochHeaderLen + epoch.header.recordsBytes + epochCommitLen

/-- The records of an epoch that starts at an offset. -/
def EpochText.records (start : Nat) (epoch : EpochText) : List StoredRecord :=
  describedRecords epoch.header 0 (start + epochHeaderLen) epoch.descriptors

/-- The bytes of the commit of an epoch. -/
def EpochText.commitBytes (content : Bytes) (start : Nat) (epoch : EpochText) : Bytes :=
  slice content (start + epochHeaderLen + epoch.header.recordsBytes) epochCommitLen

/-- **An epoch at an offset of a file**: a valid header, as many descriptors as it says whose records
fill the bytes it says, and a commit for exactly this epoch. -/
structure EpochAt (content : Bytes) (start : Nat) (epoch : EpochText) : Prop where
  inside : start + epoch.length ≤ content.length
  header : EpochHeader.decode (slice content start epochHeaderLen) = .ok epoch.header
  count : epoch.descriptors.length = epoch.header.recordCount
  records : DescriptorsAt content (start + epochHeaderLen) epoch.descriptors
    (start + epochHeaderLen + epoch.header.recordsBytes)
  commit : EpochCommit.decode (epoch.commitBytes content start) =
    .ok ⟨start, epoch.length, epochDigest (slice content start epochHeaderLen)
      (describedBytes content (start + epochHeaderLen) epoch.descriptors)⟩

/-- Epochs follow each other from one offset to another. -/
def EpochsAt (content : Bytes) : Nat → List EpochText → Nat → Prop
  | start, [], finish => start = finish
  | start, epoch :: rest, finish =>
    EpochAt content start epoch ∧ EpochsAt content (start + epoch.length) rest finish

/-- The records of epochs, in their order. -/
def textRecords : Nat → List EpochText → List StoredRecord
  | _, [] => []
  | start, epoch :: rest => epoch.records start ++ textRecords (start + epoch.length) rest

/-- The boundaries of epochs that follow some records. -/
def textBoundaries (content : Bytes) : Nat → Nat → List EpochText → List EpochBoundary
  | _, _, [] => []
  | before, start, epoch :: rest =>
    ⟨before + epoch.descriptors.length, epoch.commitBytes content start⟩ ::
      textBoundaries content (before + epoch.descriptors.length) (start + epoch.length) rest

end

/-! ### The scan of descriptors -/

section

variable [Hasher] {path : Artifact} {content : Bytes}

theorem DescriptorsAt.le {descriptors : List RecordDescriptor} {offset : Nat}
    (described : DescriptorsAt content offset descriptors finish) :
    offset + recordDescriptorLen * descriptors.length ≤ finish := by
  induction descriptors generalizing offset with
  | nil => exact Nat.le_of_eq described
  | cons descriptor rest ih =>
    have later := ih described.2.2
    have longer : recordDescriptorLen ≤ descriptor.length := by
      unfold RecordDescriptor.length
      omega
    rw [List.length_cons, Nat.mul_succ]
    omega

theorem map_eq_some_record {found : Option (List StoredRecord × List Bytes × Nat)} {encoded : Bytes}
    {records : List StoredRecord} {bytes : List Bytes} :
    (found.map fun (others, descriptors, last) =>
        (record :: others, encoded :: descriptors, last)) = some (records, bytes, finish) ↔
      ∃ others descriptors, found = some (others, descriptors, finish) ∧ records = record :: others ∧
        bytes = encoded :: descriptors := by
  rw [Option.map_eq_some_iff]
  constructor
  · rintro ⟨⟨others, descriptors, last⟩, found, same⟩
    cases same
    exact ⟨others, descriptors, found, rfl, rfl⟩
  · rintro ⟨others, descriptors, found, rfl, rfl⟩
    exact ⟨_, found, rfl⟩

/-- **The descriptor loop accepts exactly the descriptors of the grammar.** -/
theorem scanRecords_iff {offset : Nat} {records : List StoredRecord} {encoded : List Bytes}
    (fits : content.length ≤ wordMax)
    (sequences : header.firstSequence + (index + count) ≤ wordMax + 1) :
    scanRecords path content header count index offset = .ok (some (records, encoded, finish)) ↔
      ∃ descriptors : List RecordDescriptor, descriptors.length = count ∧
        DescriptorsAt content offset descriptors finish ∧
        records = describedRecords header index offset descriptors ∧
        encoded = describedBytes content offset descriptors := by
  induction count generalizing index offset records encoded with
  | zero =>
    constructor
    · intro scanned
      cases scanned
      exact ⟨[], rfl, rfl, rfl, rfl⟩
    · rintro ⟨descriptors, isEmpty, described, rfl, rfl⟩
      cases List.eq_nil_of_length_eq_zero isEmpty
      cases described
      rfl
  | succ count ih =>
    unfold scanRecords
    constructor
    · intro scanned
      split at scanned
      · cases scanned
      rename_i room
      simp only [malformed, bind_eq_ok, mapError_eq_ok, orError_eq_ok,
        checkedAdd_eq_some] at scanned
      obtain ⟨descriptor, decoded, _, ⟨rfl, -⟩, _, ⟨rfl, -⟩, _, ⟨rfl, -⟩, scanned⟩ := scanned
      split at scanned
      · cases scanned
      rename_i inside
      simp only [bind_eq_ok, orError_eq_ok, checkedAdd_eq_some,
        pure_eq_ok] at scanned
      obtain ⟨_, ⟨rfl, -⟩, rest, isRest, mapped⟩ := scanned
      obtain ⟨others, otherBytes, rfl, rfl, rfl⟩ := map_eq_some_record.mp mapped
      obtain ⟨descriptors, rfl, described, rfl, rfl⟩ := (ih (by omega)).mp isRest
      have length : offset + recordDescriptorLen + descriptor.metadataLen + descriptor.payloadLen =
          offset + descriptor.length := by
        unfold RecordDescriptor.length
        omega
      rw [length] at inside described
      refine ⟨descriptor :: descriptors, rfl, ⟨Nat.not_lt.mp inside, decoded, described⟩, ?_, ?_⟩
      · rw [describedRecords, length]
        rfl
      · rw [describedBytes, length]
    · rintro ⟨descriptors, counted, described, rfl, rfl⟩
      obtain ⟨descriptor, rest, rfl⟩ := List.exists_cons_of_length_eq_add_one counted
      obtain ⟨inside, decoded, later⟩ := described
      have length : offset + recordDescriptorLen + descriptor.metadataLen + descriptor.payloadLen =
          offset + descriptor.length := by
        unfold RecordDescriptor.length
        omega
      have fewer : header.firstSequence + (index + 1 + count) ≤ wordMax + 1 := by omega
      have isRest := (ih fewer).mpr ⟨rest, Nat.succ.inj counted, later, rfl, rfl⟩
      rw [if_neg (by omega)]
      simp only [malformed, bind_eq_ok, mapError_eq_ok, orError_eq_ok,
        checkedAdd_eq_some]
      refine ⟨descriptor, decoded, _, ⟨rfl, by omega⟩, _, ⟨rfl, by omega⟩, _, ⟨rfl, by omega⟩, ?_⟩
      rw [if_neg (by omega), length]
      simp only [bind_eq_ok, orError_eq_ok, checkedAdd_eq_some, pure_eq_ok]
      exact ⟨_, ⟨rfl, by omega⟩, _, isRest, rfl⟩

/-! ### The bytes of a scanned segment -/

theorem scanRecords_long {offset last : Nat} {records : List StoredRecord}
    {descriptors : List Bytes} (scanned : scanRecords path bytes header count index offset =
      .ok (some (records, descriptors, last))) :
    offset + recordDescriptorLen * records.length ≤ last := by
  induction count generalizing index offset records descriptors with
  | zero =>
    cases scanned
    simp
  | succ count ih =>
    unfold scanRecords at scanned
    split at scanned
    · cases scanned
    · simp only [bind_eq_ok, orError_eq_ok, checkedAdd_eq_some] at scanned
      obtain ⟨descriptor, -, _, ⟨rfl, -⟩, _, ⟨rfl, -⟩, _, ⟨rfl, -⟩, scanned⟩ := scanned
      split at scanned
      · cases scanned
      · simp only [bind_eq_ok, pure_eq_ok] at scanned
        obtain ⟨_, -, rest, isRest, mapped⟩ := scanned
        obtain ⟨⟨others, otherDescriptors, end_⟩, rfl, same⟩ := Option.map_eq_some_iff.mp mapped
        simp only [Prod.mk.injEq] at same
        obtain ⟨rfl, rfl, rfl⟩ := same
        have later := ih isRest
        rw [List.length_cons, Nat.mul_succ]
        omega

theorem scanEpoch_long {endOffset : Nat} {records : List StoredRecord}
    (scanned : scanEpoch path bytes start = .ok (.complete records commit endOffset)) :
    start + epochHeaderLen + recordDescriptorLen * records.length + epochCommitLen ≤ endOffset ∧
      endOffset ≤ bytes.length := by
  simp only [scanEpoch, bind_eq_ok] at scanned
  obtain ⟨header, -, _, -, _, -, scanned⟩ := scanned
  split at scanned
  · cases scanned
  · simp only [bind_eq_ok, orError_eq_ok, checkedAdd_eq_some] at scanned
    obtain ⟨_, ⟨rfl, -⟩, found, isFound, scanned⟩ := scanned
    cases found with
    | none => cases scanned
    | some result =>
      obtain ⟨read, descriptors, last⟩ := result
      have long := scanRecords_long isFound
      simp only [scanCommit, bind_eq_ok] at scanned
      obtain ⟨_, -, scanned⟩ := scanned
      split at scanned
      · cases scanned
      · rename_i room
        simp only [bind_eq_ok, orError_eq_ok, checkedAdd_eq_some,
          pure_eq_ok] at scanned
        obtain ⟨_, -, _, -, _, -, _, -, _, ⟨rfl, -⟩, same⟩ := scanned
        cases same
        unfold epochCommitLen at room
        unfold epochCommitLen
        omega

/-- **A scanned file is longer than the entries of its records**, also where its tail is cut. -/
theorem scanEpochs_long {offset : Nat} {records : List StoredRecord} {epochs : List EpochBoundary}
    (long : segmentHeaderLen + 16 * records.length ≤ offset) (inside : offset ≤ bytes.length)
    (isScanned : scanEpochs path bytes allow baseline fuel offset records epochs = .ok scanned) :
    segmentHeaderLen + 16 * scanned.records.length ≤ scanned.repair.getD bytes.length ∧
      scanned.repair.getD bytes.length ≤ bytes.length := by
  induction fuel generalizing offset records epochs with
  | zero =>
    cases isScanned
    exact ⟨long.trans inside, Nat.le_refl _⟩
  | succ fuel ih =>
    unfold scanEpochs at isScanned
    split at isScanned
    · cases isScanned
      exact ⟨long.trans inside, Nat.le_refl _⟩
    split at isScanned
    · simp only [bind_eq_ok, pure_eq_ok] at isScanned
      obtain ⟨_, -, rfl⟩ := isScanned
      exact ⟨long, inside⟩
    split at isScanned
    · simp only [bind_eq_ok, pure_eq_ok] at isScanned
      obtain ⟨_, -, _, -, rfl⟩ := isScanned
      exact ⟨long.trans inside, Nat.le_refl _⟩
    · simp only [bind_eq_ok] at isScanned
      obtain ⟨step, isStep, isScanned⟩ := isScanned
      cases step with
      | complete epochRecords commit endOffset =>
        obtain ⟨more, still⟩ := scanEpoch_long isStep
        unfold recordDescriptorLen at more
        simp only [bind_eq_ok] at isScanned
        obtain ⟨_, -, isScanned⟩ := isScanned
        exact ih (by rw [List.length_append]; omega) still isScanned
      | incomplete =>
        simp only [bind_eq_ok, pure_eq_ok] at isScanned
        obtain ⟨_, -, rfl⟩ := isScanned
        exact ⟨long, inside⟩

/-! ### The scan of an epoch -/

/-- **An epoch is read back exactly where the grammar has one.** -/
theorem scanEpoch_iff {start finish : Nat} {records : List StoredRecord} {commit : Bytes}
    (fits : content.length ≤ wordMax) :
    scanEpoch path content start = .ok (.complete records commit finish) ↔
      ∃ epoch : EpochText, EpochAt content start epoch ∧ finish = start + epoch.length ∧
        records = epoch.records start ∧ commit = epoch.commitBytes content start := by
  have interval : ∀ {header : EpochHeader} {bytes : Bytes}, EpochHeader.decode bytes = .ok header →
      header.firstSequence + (0 + header.recordCount) ≤ wordMax + 1 := by
    intro header bytes decoded
    rw [Nat.zero_add]
    exact EpochHeader.interval_of_decode decoded
  constructor
  · intro scanned
    simp only [scanEpoch, malformed, bind_eq_ok, mapError_eq_ok, orError_eq_ok,
      Option.bind_eq_bind, Option.bind_eq_some_iff, checkedAdd_eq_some] at scanned
    obtain ⟨header, decoded, _, ⟨_, ⟨rfl, -⟩, rfl, -⟩, _, ⟨rfl, -⟩, scanned⟩ := scanned
    split at scanned
    · cases scanned
    rename_i inside
    simp only [bind_eq_ok, orError_eq_ok, checkedAdd_eq_some] at scanned
    obtain ⟨_, ⟨rfl, -⟩, found, isFound, scanned⟩ := scanned
    cases found with
    | none => cases scanned
    | some result =>
      obtain ⟨read, encoded, last⟩ := result
      obtain ⟨descriptors, counted, described, rfl, rfl⟩ :=
        (scanRecords_iff fits (interval decoded)).mp isFound
      have after := described.le
      simp only [scanCommit, bind_eq_ok, ensure_eq_ok, decide_eq_true_eq] at scanned
      obtain ⟨_, filled, scanned⟩ := scanned
      have ends : last = start + epochHeaderLen + header.recordsBytes := by omega
      subst ends
      split at scanned
      · cases scanned
      simp only [malformed, bind_eq_ok, mapError_eq_ok, orError_eq_ok,
        Option.bind_eq_bind, Option.bind_eq_some_iff, checkedAdd_eq_some, ensure_eq_ok,
        Bool.and_eq_true, decide_eq_true_eq, pure_eq_ok] at scanned
      obtain ⟨⟨epochStart, epochBytes, digest⟩, isCommit, _, ⟨_, ⟨rfl, -⟩, rfl, -⟩, _,
        ⟨starts, sized⟩, _, digested, _, ⟨rfl, -⟩, same⟩ := scanned
      cases same
      simp only at starts sized digested
      rw [starts, sized, digested] at isCommit
      refine ⟨⟨header, descriptors⟩, ⟨?_, decoded, counted, described, isCommit⟩, ?_, rfl, rfl⟩
      · exact Nat.not_lt.mp inside
      · show _ = start + (epochHeaderLen + header.recordsBytes + epochCommitLen)
        simp only [Nat.add_assoc]
  · rintro ⟨⟨header, descriptors⟩, epoch, rfl, rfl, rfl⟩
    have inside := epoch.inside
    unfold EpochText.length at inside
    simp only at inside
    have isFound : scanRecords path content header header.recordCount 0 (start + epochHeaderLen) = _ :=
      (scanRecords_iff fits (interval epoch.header)).mpr
        ⟨descriptors, epoch.count, epoch.records, rfl, rfl⟩
    unfold scanEpoch
    simp only [malformed, bind_eq_ok, mapError_eq_ok, orError_eq_ok,
      Option.bind_eq_bind, Option.bind_eq_some_iff, checkedAdd_eq_some]
    refine ⟨header, epoch.header, _, ⟨_, ⟨rfl, by omega⟩, rfl, by omega⟩, _, ⟨rfl, by omega⟩, ?_⟩
    rw [if_neg (by omega)]
    simp only [bind_eq_ok, orError_eq_ok, checkedAdd_eq_some]
    refine ⟨_, ⟨rfl, by omega⟩, _, isFound, ?_⟩
    simp only [scanCommit, bind_eq_ok, ensure_eq_ok, decide_eq_true_eq]
    refine ⟨(), by omega, ?_⟩
    rw [if_neg (by omega)]
    simp only [malformed, bind_eq_ok, mapError_eq_ok, orError_eq_ok,
      Option.bind_eq_bind, Option.bind_eq_some_iff, checkedAdd_eq_some, ensure_eq_ok,
      Bool.and_eq_true, decide_eq_true_eq, pure_eq_ok]
    refine ⟨_, epoch.commit, _, ⟨_, ⟨rfl, by omega⟩, rfl, by omega⟩, (), ⟨rfl, rfl⟩, (), rfl, _,
      ⟨rfl, by omega⟩, ?_⟩
    have ends : start + epochHeaderLen + header.recordsBytes + epochCommitLen =
        start + (epochHeaderLen + header.recordsBytes + epochCommitLen) := by
      simp only [Nat.add_assoc]
    exact congrArg (ScanEpoch.complete _ _) ends

/-! ### The scan of a file -/

/-- A file ends at an offset, or its last bytes from there on are a footer. -/
def FooterAt (content : Bytes) (offset : Nat) : Option SegmentFooter → Prop
  | none => offset = content.length
  | some footer => offset + segmentFooterLen = content.length ∧
      SegmentFooter.decode (slice content offset segmentFooterLen) = .ok footer

/-- No complete structure of a segment starts at an offset, and the file goes on there: what is left is
too short for a header, or an epoch that does not fit. -/
def IncompleteAt (path : Artifact) (content : Bytes) (offset : Nat) : Prop :=
  offset < content.length ∧ (∀ epoch, ¬ EpochAt content offset epoch) ∧
    (content.length - offset < epochHeaderLen ∨ scanEpoch path content offset = .ok .incomplete)

/-- **Where a scan ends**: with the file, with a footer, or at a tail that may be cut. -/
def EndsAt (path : Artifact) (content : Bytes) (allow : Bool) (baseline : Option Nat) (offset : Nat)
    (scanned : Scanned) : Prop :=
  match scanned.repair with
  | none => FooterAt content offset scanned.footer
  | some length => scanned.footer = none ∧ offset = length ∧ IncompleteAt path content offset ∧
    tailRepairAllowed allow baseline scanned.epochs = true

/-- What the epochs from an offset on add to some records and boundaries. -/
def Reads (path : Artifact) (content : Bytes) (allow : Bool) (baseline : Option Nat) (offset : Nat)
    (records : List StoredRecord) (epochs : List EpochBoundary) (scanned : Scanned) : Prop :=
  ∃ texts finish, EpochsAt content offset texts finish ∧
    EndsAt path content allow baseline finish scanned ∧
    scanned.records = records ++ textRecords offset texts ∧
    scanned.epochs = epochs ++ textBoundaries content records.length offset texts

section Reads

variable {offset : Nat} {records : List StoredRecord} {epochs : List EpochBoundary}

/-- Where no epoch starts, the scan ends. -/
theorem reads_of_no_epoch (noEpoch : ∀ epoch, ¬ EpochAt content offset epoch) :
    Reads path content allow baseline offset records epochs scanned ↔
      EndsAt path content allow baseline offset scanned ∧ scanned.records = records ∧
        scanned.epochs = epochs := by
  constructor
  · rintro ⟨texts, finish, follow, ends, isRecords, isEpochs⟩
    cases texts with
    | nil =>
      cases follow
      exact ⟨ends, isRecords.trans (List.append_nil _), isEpochs.trans (List.append_nil _)⟩
    | cons epoch rest => exact absurd follow.1 (noEpoch epoch)
  · rintro ⟨ends, isRecords, isEpochs⟩
    exact ⟨[], offset, rfl, ends, isRecords.trans (List.append_nil _).symm,
      isEpochs.trans (List.append_nil _).symm⟩

/-- Where the scan does not end, an epoch starts. -/
theorem reads_of_not_end (notEnd : ¬ EndsAt path content allow baseline offset scanned) :
    Reads path content allow baseline offset records epochs scanned ↔
      ∃ epoch, EpochAt content offset epoch ∧
        Reads path content allow baseline (offset + epoch.length) (records ++ epoch.records offset)
          (epochs ++ [⟨(records ++ epoch.records offset).length, epoch.commitBytes content offset⟩])
          scanned := by
  have counted : ∀ epoch : EpochText, (records ++ epoch.records offset).length =
      records.length + epoch.descriptors.length := by
    intro epoch
    rw [List.length_append, EpochText.records, describedRecords_length]
  constructor
  · rintro ⟨texts, finish, follow, ends, isRecords, isEpochs⟩
    cases texts with
    | nil =>
      cases follow
      exact absurd ends notEnd
    | cons epoch rest =>
      refine ⟨epoch, follow.1, rest, finish, follow.2, ends, ?_, ?_⟩
      · rw [isRecords, textRecords, List.append_assoc]
      · rw [isEpochs, textBoundaries, counted, List.append_assoc]
        rfl
  · rintro ⟨epoch, isEpoch, rest, finish, follow, ends, isRecords, isEpochs⟩
    refine ⟨epoch :: rest, finish, ⟨isEpoch, follow⟩, ends, ?_, ?_⟩
    · rw [isRecords, textRecords, List.append_assoc]
    · rw [isEpochs, textBoundaries, counted, List.append_assoc]
      rfl

theorem EpochAt.header_inside {epoch : EpochText} (isEpoch : EpochAt content offset epoch) :
    offset + epochHeaderLen < content.length := by
  have inside := isEpoch.inside
  unfold EpochText.length epochCommitLen at inside
  omega

theorem EpochText.length_pos (epoch : EpochText) : 0 < epoch.length := by
  unfold EpochText.length epochCommitLen
  omega

theorem epoch_magic (decoded : EpochHeader.decode (slice content offset epochHeaderLen) = .ok header) :
    slice content offset 8 = epochMagic := by
  simp only [EpochHeader.decode, bind_eq_ok, exact_eq_ok, ensure_eq_ok,
    decide_eq_true_eq] at decoded
  obtain ⟨_, ⟨-, rfl⟩, _, magic, -⟩ := decoded
  rw [slice_slice (by decide)] at magic
  exact magic

theorem footer_magic {ending : SegmentFooter}
    (decoded : SegmentFooter.decode (slice content offset segmentFooterLen) = .ok ending) :
    slice content offset 8 = segmentFooterMagic := by
  simp only [SegmentFooter.decode, bind_eq_ok, exact_eq_ok, ensure_eq_ok,
    decide_eq_true_eq] at decoded
  obtain ⟨_, ⟨-, rfl⟩, _, magic, -⟩ := decoded
  rw [slice_slice (by decide)] at magic
  exact magic

theorem EpochAt.records_le {epoch : EpochText} (isEpoch : EpochAt content offset epoch) :
    offset + (epoch.records offset).length ≤ offset + epoch.length := by
  have described := isEpoch.records.le
  unfold EpochText.records EpochText.length
  rw [describedRecords_length]
  unfold recordDescriptorLen at described
  omega

/-- **The epoch loop accepts exactly the epochs of the grammar.** -/
theorem scanEpochs_iff (fits : content.length ≤ wordMax) (inside : offset ≤ content.length)
    (enough : content.length - offset ≤ fuel) (few : records.length ≤ offset) :
    scanEpochs path content allow baseline fuel offset records epochs = .ok scanned ↔
      Reads path content allow baseline offset records epochs scanned := by
  obtain ⟨all, boundaries, footer, repair⟩ := scanned
  have ended : ∀ {offset : Nat} {records : List StoredRecord} {epochs : List EpochBoundary},
      content.length ≤ offset → offset ≤ content.length →
      ((Except.ok ⟨records, epochs, none, none⟩ : Except Error Scanned) =
        .ok ⟨all, boundaries, footer, repair⟩ ↔
      Reads path content allow baseline offset records epochs ⟨all, boundaries, footer, repair⟩) := by
    intro offset records epochs atEnd within
    rw [reads_of_no_epoch fun epoch isEpoch => by have := isEpoch.header_inside; omega]
    constructor
    · intro same
      cases same
      exact ⟨Nat.le_antisymm within atEnd, rfl, rfl⟩
    · rintro ⟨ends, isRecords, isEpochs⟩
      cases isRecords
      cases isEpochs
      cases repair with
      | some length =>
        have := ends.2.2.1.1
        omega
      | none =>
        cases footer with
        | none => rfl
        | some ending =>
          have := ends.1
          unfold segmentFooterLen at this
          omega
  induction fuel generalizing offset records epochs with
  | zero => exact ended (by omega) inside
  | succ fuel ih =>
    unfold scanEpochs
    by_cases atEnd : content.length ≤ offset
    · rw [if_pos atEnd]
      exact ended atEnd inside
    rw [if_neg atEnd]
    by_cases short : content.length - offset < epochHeaderLen
    · have noEpoch : ∀ epoch, ¬ EpochAt content offset epoch := fun epoch isEpoch => by
        have := isEpoch.header_inside
        omega
      rw [if_pos short, reads_of_no_epoch noEpoch]
      simp only [bind_eq_ok, pure_eq_ok, ensure_eq_ok]
      constructor
      · rintro ⟨_, allowed, same⟩
        cases same
        exact ⟨⟨rfl, rfl, ⟨by omega, noEpoch, .inl short⟩, allowed⟩, rfl, rfl⟩
      · rintro ⟨ends, isRecords, isEpochs⟩
        cases isRecords
        cases isEpochs
        unfold epochHeaderLen at short
        cases repair with
        | some length =>
          obtain ⟨isNone, rfl, -, allowed⟩ := ends
          cases isNone
          exact ⟨(), allowed, rfl⟩
        | none =>
          cases footer with
          | none => exact absurd (Nat.le_of_eq ends.symm) atEnd
          | some ending =>
            have := ends.1
            unfold segmentFooterLen at this
            omega
    rw [if_neg short]
    by_cases magic : slice content offset 8 = segmentFooterMagic
    · rw [if_pos magic, reads_of_no_epoch fun epoch isEpoch =>
        absurd ((epoch_magic isEpoch.header).symm.trans magic) (by decide)]
      simp only [malformed, bind_eq_ok, ensure_eq_ok, decide_eq_true_eq, mapError_eq_ok, pure_eq_ok]
      constructor
      · rintro ⟨_, last, ending, decoded, same⟩
        cases same
        exact ⟨⟨by omega, decoded⟩, rfl, rfl⟩
      · rintro ⟨ends, isRecords, isEpochs⟩
        cases isRecords
        cases isEpochs
        cases repair with
        | none =>
          cases footer with
          | none => exact absurd (Nat.le_of_eq ends.symm) atEnd
          | some ending => exact ⟨(), by have := ends.1; omega, ending, ends.2, rfl⟩
        | some length =>
          -- an incomplete epoch starts with a header
          have isStep := ends.2.2.1.2.2.resolve_left short
          simp only [scanEpoch, malformed, bind_eq_ok, mapError_eq_ok] at isStep
          obtain ⟨_, decoded, -⟩ := isStep
          exact absurd ((epoch_magic decoded).symm.trans magic) (by decide)
    rw [if_neg magic]
    have notFooter : ¬ FooterAt content offset footer := by
      intro ends
      cases footer with
      | none => exact atEnd (Nat.le_of_eq ends.symm)
      | some ending => exact magic (footer_magic ends.2)
    simp only [bind_eq_ok]
    by_cases isEpoch : ∃ epoch, EpochAt content offset epoch
    · have notEnd : ¬ EndsAt path content allow baseline offset ⟨all, boundaries, footer, repair⟩ := by
        intro ends
        cases repair with
        | none => exact notFooter ends
        | some length => exact isEpoch.elim ends.2.2.1.2.1
      rw [reads_of_not_end notEnd]
      have next : ∀ epoch : EpochText, EpochAt content offset epoch → _ := fun epoch isEpoch =>
        @ih (offset + epoch.length) (records ++ epoch.records offset)
          (epochs ++ [⟨(records ++ epoch.records offset).length, epoch.commitBytes content offset⟩])
          isEpoch.inside (by have := epoch.length_pos; omega)
          (by have := isEpoch.records_le; rw [List.length_append]; omega)
      constructor
      · rintro ⟨step, isStep, scanned⟩
        cases step with
        | complete epochRecords commit finish =>
          obtain ⟨epoch, isEpoch, rfl, rfl, rfl⟩ := (scanEpoch_iff fits).mp isStep
          simp only [bind_eq_ok, orError_eq_ok, toWord_eq_some] at scanned
          obtain ⟨_, ⟨rfl, -⟩, scanned⟩ := scanned
          exact ⟨epoch, isEpoch, (next epoch isEpoch).mp scanned⟩
        | incomplete =>
          obtain ⟨epoch, isEpoch⟩ := isEpoch
          cases isStep.symm.trans ((scanEpoch_iff fits).mpr ⟨epoch, isEpoch, rfl, rfl, rfl⟩)
      · rintro ⟨epoch, isEpoch, reads⟩
        have bounded : (records ++ epoch.records offset).length ≤ wordMax := by
          have within := isEpoch.inside
          have least := isEpoch.records_le
          rw [List.length_append]
          omega
        refine ⟨_, (scanEpoch_iff fits).mpr ⟨epoch, isEpoch, rfl, rfl, rfl⟩, ?_⟩
        simp only [bind_eq_ok, orError_eq_ok, toWord_eq_some]
        exact ⟨_, ⟨rfl, bounded⟩, (next epoch isEpoch).mpr reads⟩
    · have noEpoch := not_exists.mp isEpoch
      rw [reads_of_no_epoch noEpoch]
      constructor
      · rintro ⟨step, isStep, scanned⟩
        cases step with
        | complete epochRecords commit finish =>
          obtain ⟨epoch, found, -⟩ := (scanEpoch_iff fits).mp isStep
          exact absurd found (noEpoch epoch)
        | incomplete =>
          simp only [bind_eq_ok, pure_eq_ok, ensure_eq_ok] at scanned
          obtain ⟨_, allowed, same⟩ := scanned
          cases same
          exact ⟨⟨rfl, rfl, ⟨by omega, noEpoch, .inr isStep⟩, allowed⟩, rfl, rfl⟩
      · rintro ⟨ends, isRecords, isEpochs⟩
        cases isRecords
        cases isEpochs
        cases repair with
        | none => exact absurd ends notFooter
        | some length =>
          obtain ⟨isNone, rfl, incomplete, allowed⟩ := ends
          cases isNone
          refine ⟨_, incomplete.2.2.resolve_left short, ?_⟩
          simp only [bind_eq_ok, ensure_eq_ok]
          exact ⟨(), allowed, rfl⟩

end Reads

/-! ### The checks after the scan -/

/-- One more record keeps the sequences contiguous if it continues its stream. -/
theorem Contiguous.concat (contiguous : Contiguous done)
    (continues : ∀ previous ∈ (sequencesOf record.streamId done).getLast?,
      previous + 1 = record.sequence) : Contiguous (done ++ [record]) := by
  intro streamId
  rw [sequencesOf_append, sequencesOf_cons]
  by_cases same : record.streamId = streamId
  · subst same
    rw [if_pos rfl]
    refine List.isChain_append.mpr ⟨contiguous _, List.isChain_singleton _, ?_⟩
    intro previous isLast next isNext
    cases isNext
    exact continues previous isLast
  · rw [if_neg same]
    exact (List.append_nil (sequencesOf streamId done)).symm ▸ contiguous streamId

/-- The contiguity check accepts contiguous records only. -/
theorem contiguous_of_followed {rest : List StoredRecord} {last final : Highwaters}
    (tracks : ∀ streamId : StreamId, last[streamId]? = (sequencesOf streamId done).getLast?)
    (contiguous : Contiguous done) (folded : tryFold (followSequence path) last rest = .ok final) :
    Contiguous (done ++ rest) := by
  induction rest generalizing last done with
  | nil => rwa [List.append_nil]
  | cons record rest ih =>
    rw [tryFold_cons, bind_eq_ok] at folded
    obtain ⟨next, stepped, folded⟩ := folded
    have step : next = last.insert record.streamId record.sequence ∧
        ∀ previous ∈ (sequencesOf record.streamId done).getLast?, previous + 1 = record.sequence := by
      unfold followSequence at stepped
      rw [tracks] at stepped
      cases found : (sequencesOf record.streamId done).getLast? with
      | none =>
        rw [found] at stepped
        exact ⟨(pure_eq_ok.mp stepped).symm, by simp⟩
      | some previous =>
        rw [found] at stepped
        simp only [bind_eq_ok, orError_eq_ok, checkedAdd_eq_some,
          ensure_eq_ok, decide_eq_true_eq, pure_eq_ok] at stepped
        obtain ⟨_, ⟨rfl, -⟩, _, follows, rfl⟩ := stepped
        exact ⟨rfl, fun _ isLast => Option.some.inj isLast ▸ follows.symm⟩
    obtain ⟨rfl, continues⟩ := step
    have tracksNext : ∀ streamId : StreamId,
        (last.insert record.streamId record.sequence)[streamId]? =
          (sequencesOf streamId (done ++ [record])).getLast? := by
      intro streamId
      rw [getLast?_sequencesOf_append, ExtTreeMap.getElem?_insert, tracks]
      simp
    have all := ih tracksNext (contiguous.concat continues) folded
    rwa [List.append_assoc] at all

/-- A footer is that of a segment. -/
structure SegmentFooter.Matches (footer : SegmentFooter) (segmentId fileLen : Nat)
    (headerBytes : Bytes) (epochs : List EpochBoundary) : Prop where
  segmentId : footer.segmentId = segmentId
  segmentBytes : footer.segmentBytes = fileLen
  epochCount : footer.epochCount = epochs.length
  segmentDigest : footer.segmentDigest = Camus.segmentDigest headerBytes (epochs.map (·.commit))

theorem validateFooter_iff {epochs : List EpochBoundary} {footer : SegmentFooter}
    (few : epochs.length ≤ wordMax) :
    validateFooter path segmentId fileLen headerBytes epochs footer = .ok () ↔
      footer.Matches segmentId fileLen headerBytes epochs := by
  simp only [validateFooter, bind_eq_ok, ensure_eq_ok, orError_eq_ok,
    toWord_eq_some, decide_eq_true_eq]
  constructor
  · rintro ⟨_, named, _, sized, _, ⟨rfl, -⟩, _, counted, digested⟩
    exact ⟨named, sized, counted, digested⟩
  · rintro ⟨named, sized, counted, digested⟩
    exact ⟨(), named, (), sized, _, ⟨rfl, few⟩, (), counted, digested⟩

theorem validateScanned_iff {streams : Nat} (few : scanned.epochs.length ≤ wordMax)
    (bounded : ∀ record ∈ scanned.records, record.sequence ≤ wordMax) :
    validateScanned path segmentId fileLen headerBytes scanned = .ok streams ↔
      scanned.epochs ≠ [] ∧ Contiguous scanned.records ∧
        (∀ footer, scanned.footer = some footer →
          footer.Matches segmentId fileLen headerBytes scanned.epochs) ∧
        streams = streamCount scanned.records := by
  have checked : (∃ units, tryMap (validateFooter path segmentId fileLen headerBytes
      scanned.epochs) scanned.footer.toList = .ok units) ↔ ∀ footer, scanned.footer = some footer →
        footer.Matches segmentId fileLen headerBytes scanned.epochs := by
    rw [exists_tryMap_eq_ok]
    simp only [Option.mem_toList, validateFooter_iff few]
  have started : ∀ streamId : StreamId, (∅ : Highwaters)[streamId]? =
      (sequencesOf streamId []).getLast? := by simp
  simp only [validateScanned, bind_eq_ok, ensure_eq_ok, decide_eq_true_eq,
    pure_eq_ok]
  constructor
  · rintro ⟨_, nonempty, sequences, folded, units, isChecked, rfl⟩
    have contiguous : Contiguous scanned.records :=
      contiguous_of_followed started (fun _ => List.isChain_nil) folded
    obtain ⟨final, again, ends⟩ := @followSequences_eq_ok _ path scanned.records ∅ [] started
      contiguous bounded
    cases folded.symm.trans again
    exact ⟨nonempty, contiguous, checked.mp ⟨units, isChecked⟩,
      Maps.size_eq_dedup_length (mem_of_getLast?_sequencesOf ends)⟩
  · rintro ⟨nonempty, contiguous, footers, rfl⟩
    obtain ⟨final, folded, ends⟩ := @followSequences_eq_ok _ path scanned.records ∅ [] started
      contiguous bounded
    obtain ⟨units, isChecked⟩ := checked.mpr footers
    exact ⟨(), nonempty, final, folded, units, isChecked,
      Maps.size_eq_dedup_length (mem_of_getLast?_sequencesOf ends)⟩

/-! ### Segments -/

/-- What the bytes of a segment file say. -/
structure SegmentText where
  header : SegmentHeader
  epochs : List EpochText
  footer : Option SegmentFooter

namespace SegmentText

/-- The records that the descriptors of a segment describe, in their order. -/
def records (text : SegmentText) : List StoredRecord := textRecords segmentHeaderLen text.epochs

/-- The boundaries of the epochs of a segment. -/
def boundaries (content : Bytes) (text : SegmentText) : List EpochBoundary :=
  textBoundaries content 0 segmentHeaderLen text.epochs

/-- **A file is a segment**: the header of the expected root and segment, then one or more epochs up
to the end of the file or up to a matching footer, with contiguous sequences in every stream. -/
structure Describes (text : SegmentText) (rootId : RootId) (segmentId : Nat) (content : Bytes) :
    Prop where
  header : SegmentHeader.decode (slice content 0 segmentHeaderLen) = .ok text.header
  root : text.header.rootId = rootId
  named : text.header.segmentId = segmentId
  nonempty : text.epochs ≠ []
  epochs : ∃ finish, EpochsAt content segmentHeaderLen text.epochs finish ∧
    FooterAt content finish text.footer
  contiguous : Contiguous text.records
  footer : ∀ footer, text.footer = some footer → footer.Matches segmentId content.length
    (slice content 0 segmentHeaderLen) (text.boundaries content)

/-- The segment in memory that a file stands for. -/
def segment (content : Bytes) (segmentId file : Nat) (text : SegmentText) : Segment where
  id := segmentId
  file := file
  header := text.header
  headerBytes := slice content 0 segmentHeaderLen
  fileLen := content.length
  records := text.records
  uniqueStreams := streamCount text.records
  unreleasedRecords := text.records.length
  epochs := text.boundaries content
  footer := text.footer
  repairedTail := false

end SegmentText

theorem textBoundaries_length (content : Bytes) (before start : Nat) (texts : List EpochText) :
    (textBoundaries content before start texts).length = texts.length := by
  induction texts generalizing before start with
  | nil => rfl
  | cons epoch rest ih => rw [textBoundaries, List.length_cons, ih, List.length_cons]

theorem FooterAt.le {offset : Nat} {footer : Option SegmentFooter}
    (ends : FooterAt content offset footer) : offset ≤ content.length := by
  cases footer with
  | none => exact Nat.le_of_eq ends
  | some footer => exact Nat.le_of_add_right_le (Nat.le_of_eq ends.1)

/-- A file has more bytes than epochs and than records. -/
theorem EpochsAt.le {texts : List EpochText} (follow : EpochsAt content start texts finish) :
    start + texts.length ≤ finish ∧ start + (textRecords start texts).length ≤ finish := by
  induction texts generalizing start with
  | nil => exact ⟨Nat.le_of_eq follow, Nat.le_of_eq follow⟩
  | cons epoch rest ih =>
    obtain ⟨epochs, records⟩ := ih follow.2
    have here := follow.1.records_le
    have longer := epoch.length_pos
    rw [textRecords, List.length_cons, List.length_append]
    omega

theorem mem_describedRecords {offset : Nat} {descriptors : List RecordDescriptor}
    (member : record ∈ describedRecords header index offset descriptors) :
    record.sequence < header.firstSequence + index + descriptors.length := by
  induction descriptors generalizing index offset with
  | nil => cases member
  | cons descriptor rest ih =>
    rw [List.length_cons]
    rcases List.mem_cons.mp member with rfl | later
    · show header.firstSequence + index < _
      omega
    · have := ih later
      omega

theorem EpochsAt.sequence_le {texts : List EpochText} (follow : EpochsAt content start texts finish)
    : ∀ record ∈ textRecords start texts, record.sequence ≤ wordMax := by
  induction texts generalizing start with
  | nil => exact fun record member => by cases member
  | cons epoch rest ih =>
    intro record member
    rcases List.mem_append.mp member with here | later
    · have below := mem_describedRecords here
      have interval := EpochHeader.interval_of_decode follow.1.header
      rw [follow.1.count] at below
      omega
    · exact ih follow.2 record later

theorem scanHeader_iff {header : SegmentHeader} :
    scanHeader path rootId segmentId bytes = .ok header ↔
      SegmentHeader.decode bytes = .ok header ∧ header.rootId = rootId ∧
        header.segmentId = segmentId := by
  simp only [scanHeader, malformed, bind_eq_ok, mapError_eq_ok, ensure_eq_ok,
    decide_eq_true_eq, pure_eq_ok]
  constructor
  · rintro ⟨_, decoded, _, root, _, named, rfl⟩
    exact ⟨decoded, root, named⟩
  · rintro ⟨decoded, root, named⟩
    exact ⟨header, decoded, (), root, (), named, rfl⟩

theorem segmentHeader_length {header : SegmentHeader}
    (decoded : SegmentHeader.decode (slice content 0 segmentHeaderLen) = .ok header) :
    segmentHeaderLen ≤ content.length := by
  simp only [SegmentHeader.decode, bind_eq_ok, exact_eq_ok] at decoded
  obtain ⟨_, ⟨sized, -⟩, -⟩ := decoded
  unfold slice at sized
  rw [List.length_take, List.drop_zero] at sized
  omega

/-- The epoch loop over a whole file. -/
theorem scanEpochs_whole_iff (fits : content.length ≤ wordMax)
    (long : segmentHeaderLen ≤ content.length) :
    scanEpochs path content allow baseline content.length segmentHeaderLen [] [] = .ok scanned ↔
      ∃ texts finish, EpochsAt content segmentHeaderLen texts finish ∧
        EndsAt path content allow baseline finish scanned ∧
        scanned.records = textRecords segmentHeaderLen texts ∧
        scanned.epochs = textBoundaries content 0 segmentHeaderLen texts :=
  scanEpochs_iff fits long (Nat.sub_le _ _) (Nat.zero_le _)

theorem EpochsAt.boundaries_le {texts : List EpochText} {footer : Option SegmentFooter}
    (follow : EpochsAt content start texts finish) (ends : FooterAt content finish footer)
    (fits : content.length ≤ wordMax) :
    (textBoundaries content 0 start texts).length ≤ wordMax := by
  have few := follow.le.1
  have within := ends.le
  rw [textBoundaries_length]
  omega

/-- **A scan without repair accepts exactly the segments of the grammar** and returns what they
describe. -/
theorem completes_scan_iff {fs final : Fs} {file : Nat} {segment : Segment}
    (found : segmentsDirectory.lookup (.log segmentId) fs = some file)
    (fits : (fs.content file).length ≤ wordMax) :
    (Completes (Segment.scan rootId segmentId allow baseline) fs segment final ∧
        segment.repairedTail = false) ↔
      ∃ text : SegmentText, text.Describes rootId segmentId (fs.content file) ∧
        segment = text.segment (fs.content file) segmentId file ∧ final = fs := by
  unfold Segment.scan
  rw [completes_bind_iff completes_read, completes_bind_iff (completes_ofOption found),
    completes_bind_iff (completes_observe _), completes_bind_iff (completes_observe _)]
  constructor
  · rintro ⟨completes, unrepaired⟩
    obtain ⟨long, returned⟩ := completes.returns.bind_require
    obtain ⟨header, isHeader, returned⟩ := returned.bind_observe.bind_ofExcept
    obtain ⟨⟨all, boundaries, footer, repair⟩, isScanned, returned⟩ := returned.bind_ofExcept
    obtain ⟨_, repaired, repairing, returned⟩ := returned.bind
    obtain ⟨streams, isValid, returned⟩ := returned.bind_ofExcept
    obtain ⟨count, isCount, returned⟩ := returned.bind_observe.bind_ofOption
    obtain ⟨rfl, ended⟩ := returned.pure
    cases repair with
    | some length => cases unrepaired
    | none =>
    have unchanged : fs = final := (repairing.result.2.symm.trans ended.symm)
    subst unchanged
    have inside : segmentHeaderLen ≤ (fs.content file).length := of_decide_eq_true long
    obtain ⟨texts, finish, follow, ends, rfl, rfl⟩ := (scanEpochs_whole_iff fits inside).mp isScanned
    obtain ⟨decoded, root, named⟩ := scanHeader_iff.mp isHeader
    obtain ⟨nonempty, contiguous, footers, rfl⟩ :=
      (validateScanned_iff (follow.boundaries_le ends fits) follow.sequence_le).mp isValid
    obtain ⟨rfl, -⟩ := toWord_eq_some.mp isCount
    refine ⟨⟨header, texts, footer⟩, ⟨decoded, root, named, ?_, ⟨finish, follow, ends⟩, contiguous,
      footers⟩, rfl, rfl⟩
    rintro rfl
    exact nonempty rfl
  · rintro ⟨⟨header, texts, footer⟩, describes, rfl, unchanged⟩
    rw [unchanged]
    obtain ⟨finish, follow, ends⟩ : ∃ finish, EpochsAt (fs.content file) segmentHeaderLen texts finish ∧
      FooterAt (fs.content file) finish footer := describes.epochs
    have long := segmentHeader_length describes.header
    have few : (textRecords segmentHeaderLen texts).length ≤ wordMax := by
      have fewer := follow.le.2
      have within := ends.le
      omega
    have some : textBoundaries (fs.content file) 0 segmentHeaderLen texts ≠ [] := by
      intro isEmpty
      have counted := congrArg List.length isEmpty
      rw [textBoundaries_length] at counted
      exact describes.nonempty (List.eq_nil_of_length_eq_zero counted)
    refine ⟨?_, rfl⟩
    refine completes_bind (completes_require (decide_eq_true long)) (completes_bind
      (completes_observe _) (completes_bind (completes_ofExcept (scanHeader_iff.mpr
        ⟨describes.header, describes.root, describes.named⟩)) ?_))
    have scans : scanEpochs (.segment (.log segmentId)) (fs.content file) allow baseline
        (fs.content file).length segmentHeaderLen [] [] = .ok ⟨textRecords segmentHeaderLen texts,
          textBoundaries (fs.content file) 0 segmentHeaderLen texts, footer, none⟩ :=
      (scanEpochs_whole_iff fits long).mpr ⟨texts, finish, follow, ends, rfl, rfl⟩
    refine completes_bind (completes_ofExcept scans) (completes_bind (completes_result _) ?_)
    refine completes_bind (completes_ofExcept ((validateScanned_iff (follow.boundaries_le ends fits)
      follow.sequence_le).mpr ⟨some, describes.contiguous, describes.footer, rfl⟩)) ?_
    exact completes_bind (completes_observe _)
      (completes_bind (completes_ofOption (toWord_of_le few)) (completes_result _))

end

end Camus
