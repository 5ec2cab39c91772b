/-
**Groups are written as one run of bytes.**

A group of epochs is written from the slices of its parts by a vectored write loop. Whatever the writer
does, what it was handed is a first part of the bytes of the group:

* `groupSlices` — the slices of a group, without empty ones; `flatten_groupSlices`, their bytes.
* `commits_prepareGroup` — every epoch of a group starts where its commit says.
* `vectored_write_exact` — the loop hands over the concatenation of its slices, byte for byte; for a
  group of epochs that is as long as its epochs say.
-/

import Camus.Lib.Vectored
import Camus.Storage.LogImage
import Camus.Storage.SegmentSpec

namespace Camus

open Codec Checked Vectored

/-! ### Slices -/

/-- A slice, unless it is empty. -/
def sliceOf (bytes : Bytes) : List Bytes := if bytes = [] then [] else [bytes]

theorem flatten_sliceOf (bytes : Bytes) : (sliceOf bytes).flatten = bytes := by
  unfold sliceOf
  split
  · rename_i empty
    rw [empty]
    rfl
  · simp

theorem sliceOf_nonempty (bytes : Bytes) : ∀ slice ∈ sliceOf bytes, slice ≠ [] := by
  unfold sliceOf
  split
  · simp
  · rename_i some
    simpa using some

/-- The slices of a record: its descriptor, and its metadata and payload unless they are empty. -/
def recordParts (entry : Record × Bytes) : List Bytes :=
  entry.2 :: (sliceOf entry.1.metadata ++ sliceOf entry.1.payload)

theorem flatten_recordParts (entry : Record × Bytes) : (recordParts entry).flatten = recordSlices entry := by
  simp [recordParts, recordSlices, flatten_sliceOf]

/-- The slices of an epoch. -/
def PendingEpochWrite.slices (write : PendingEpochWrite) : List Bytes :=
  write.epoch.header :: ((write.epoch.records.zip write.epoch.descriptors).flatMap recordParts ++
    [write.commit])

theorem PendingEpochWrite.flatten_slices (write : PendingEpochWrite) :
    write.slices.flatten = write.bytes := by
  have parts : ∀ entries : List (Record × Bytes),
      (entries.flatMap recordParts).flatten = entries.flatMap recordSlices := by
    intro entries
    induction entries with
    | nil => rfl
    | cons entry rest ih =>
      rw [List.flatMap_cons, List.flatten_append, flatten_recordParts, ih, List.flatMap_cons]
  simp [PendingEpochWrite.slices, PendingEpochWrite.bytes, parts]

/-- The slices of a group of epochs. -/
def groupSlices (writes : List PendingEpochWrite) : List Bytes := writes.flatMap PendingEpochWrite.slices

theorem flatten_groupSlices (writes : List PendingEpochWrite) :
    (groupSlices writes).flatten = writes.flatMap PendingEpochWrite.bytes := by
  induction writes with
  | nil => rfl
  | cons write rest ih =>
    rw [groupSlices, List.flatMap_cons, List.flatten_append, PendingEpochWrite.flatten_slices,
      List.flatMap_cons]
    exact congrArg _ ih

section

variable [Hasher]

/-! ### Groups of epochs -/

theorem slices_nonempty (start : Nat) (epoch : Epoch) (records : List StoredRecord) (endOffset : Nat) :
    ∀ slice ∈ PendingEpochWrite.slices ⟨epoch.prepared, records, epoch.commit start, endOffset⟩,
      slice ≠ [] := by
  have long : ∀ {bytes : Bytes} {length : Nat}, bytes.length = length → length ≠ 0 → bytes ≠ [] := by
    rintro bytes length sized some rfl
    exact some sized.symm
  refine List.forall_mem_cons.mpr ⟨long (Epoch.headerBytes_length epoch) (by decide), ?_⟩
  intro slice member
  rcases List.mem_append.mp member with inRecords | isCommit
  · obtain ⟨⟨record, descriptor⟩, isEntry, isPart⟩ := List.mem_flatMap.mp inRecords
    obtain ⟨-, isDescriptor⟩ := List.of_mem_zip isEntry
    rcases List.mem_cons.mp isPart with rfl | isBody
    · obtain ⟨source, -, rfl⟩ := List.mem_map.mp isDescriptor
      exact long (RecordDescriptor.encode_length _) (by decide)
    · rcases List.mem_append.mp isBody with inMetadata | inPayload
      · exact sliceOf_nonempty _ slice inMetadata
      · exact sliceOf_nonempty _ slice inPayload
  · obtain rfl := List.mem_singleton.mp isCommit
    exact long (Epoch.commit_length start epoch) (by decide)

/-- **The slices of a group.** None is empty, together they are as long as the epochs, and every epoch
starts where its commit says. -/
theorem commits_prepareGroup {path : Artifact} {start : Nat} {epochs : List Epoch}
    {writes : List PendingEpochWrite} (valid : ∀ epoch ∈ epochs, epoch.Valid)
    (isOk : prepareGroup path start (epochs.map Epoch.prepared) = .ok writes) :
    (∀ slice ∈ groupSlices writes, slice ≠ []) ∧
      (groupSlices writes).flatten.length = epochsLength epochs ∧
      ∀ (index : Nat) (write : PendingEpochWrite), writes[index]? = some write →
        EpochCommit.decode write.commit = .ok ⟨start + (groupSlices (writes.take index)).flatten.length,
          write.epoch.encodedBytes, epochDigest write.epoch.header write.epoch.descriptors⟩ := by
  induction epochs generalizing start writes with
  | nil =>
    cases isOk
    exact ⟨by simp [groupSlices], rfl, by simp⟩
  | cons epoch rest ih =>
    obtain ⟨here, others⟩ := List.forall_mem_cons.mp valid
    simp only [List.map_cons, prepareGroup, Result.bind_eq_ok, Result.pure_eq_ok] at isOk
    obtain ⟨write, first, later, isLater, rfl⟩ := isOk
    obtain ⟨room, rfl⟩ := (prepareEpochWrite_eq_ok here).mp first
    obtain ⟨some, length, commits⟩ := ih others isLater
    have bytes : (PendingEpochWrite.slices ⟨epoch.prepared, epoch.stored start, epoch.commit start,
        start + epoch.length⟩).flatten.length = epoch.length := by
      rw [PendingEpochWrite.flatten_slices, PendingEpochWrite.bytes_prepared, Epoch.bytes_length]
    refine ⟨?_, ?_, ?_⟩
    · intro slice member
      rcases List.mem_append.mp member with inFirst | inLater
      · exact slices_nonempty _ _ _ _ slice inFirst
      · exact some slice inLater
    · rw [groupSlices, List.flatMap_cons, List.flatten_append, List.length_append, bytes,
        epochsLength_cons]
      exact congrArg _ length
    · intro index write found
      cases index with
      | zero =>
        cases found
        exact EpochCommit.decode_encode (by show start ≤ wordMax; omega) here.sized (digest_le _)
      | succ index =>
        have decoded := commits index write found
        rw [List.take_succ_cons, groupSlices, List.flatMap_cons, List.flatten_append,
          List.length_append, bytes, ← Nat.add_assoc]
        exact decoded

/-! ### The write loop -/

/-- Writes all slices to a writer that answers so. -/
def writeAllVectored (reason : Error) (slices : List Bytes) (responses : List (Response Error)) :
    Bytes × Ending UInt8 Error :=
  Vectored.writeAll reason slices responses

/-- The frames of a group are not empty. -/
theorem encodeFrames_nonempty {bodies : List ManifestBody} {next last : Nat} {frames : List Bytes}
    (encoded : encodeFrames next bodies = .ok (frames, last)) : ∀ frame ∈ frames, frame ≠ [] := by
  have each := encodeFrames_forall₂ encoded
  clear encoded
  induction each with
  | nil => simp
  | cons framed _ ih =>
    refine List.forall_mem_cons.mpr ⟨?_, ih⟩
    rintro rfl
    obtain ⟨seq, framed⟩ := framed
    obtain ⟨-, encodedBody, -, -, empty⟩ := ManifestFrame.encodeParts_eq_ok.mp framed
    have sized := congrArg List.length empty
    rw [List.length_append, ManifestFrame.encode_length] at sized
    exact absurd sized (by simp [manifestFrameHeaderLen])

/-- **The write loop emits exactly the concatenation of its slices.** Whatever the writer answers, what
it was handed is a first part of the concatenation, and all of it once the loop returns; it does return
if the writer goes on taking bytes, since no slice of the callers is empty. The slices of a group of
epochs are as long as the epochs say, and every epoch starts at the offset its commit records. -/
theorem vectored_write_exact :
    (∀ (reason : Error) (slices : List Bytes) (responses : List (Response Error)),
      (writeAllVectored reason slices responses).1 <+: slices.flatten ∧
      ((writeAllVectored reason slices responses).2 = .finished →
        (writeAllVectored reason slices responses).1 = slices.flatten)) ∧
    (∀ (reason : Error) (slices : List Bytes) (responses : List (Response Error)),
      (∀ slice ∈ slices, slice ≠ []) → Taking responses →
      slices.flatten.length ≤ writes responses →
        (writeAllVectored reason slices responses).2 = .finished) ∧
    (∀ (path : Artifact) (start : Nat) (epochs : List PreparedEpoch) (pending : List PendingEpochWrite),
      (∀ epoch ∈ epochs, ∃ streamId firstSequence records,
        PreparedEpoch.new streamId firstSequence records = .ok epoch) →
      prepareGroup path start epochs = .ok pending →
        (∀ slice ∈ groupSlices pending, slice ≠ []) ∧
        (groupSlices pending).flatten = pending.flatMap PendingEpochWrite.bytes ∧
        (groupSlices pending).flatten.length = (epochs.map (·.encodedBytes)).sum ∧
        ∀ (index : Nat) (write : PendingEpochWrite), pending[index]? = some write →
          EpochCommit.decode write.commit =
            .ok ⟨start + (groupSlices (pending.take index)).flatten.length, write.epoch.encodedBytes,
              epochDigest write.epoch.header write.epoch.descriptors⟩) ∧
    ∀ (bodies : List ManifestBody) (next last : Nat) (frames : List Bytes),
      encodeFrames next bodies = .ok (frames, last) → ∀ frame ∈ frames, frame ≠ [] := by
  refine ⟨fun reason slices responses => ⟨writeAll_handed _ _, fun finished => writeAll_finished finished⟩,
    fun reason slices responses some taking enough => writeAll_of_enough some taking enough,
    fun path start epochs pending encoded isOk => ?_,
    fun bodies next last frames encoded => encodeFrames_nonempty encoded⟩
  obtain ⟨sources, valid, rfl⟩ : ∃ sources : List Epoch, (∀ epoch ∈ sources, epoch.Valid) ∧
      epochs = sources.map Epoch.prepared := by
    clear isOk
    induction epochs with
    | nil => exact ⟨[], by simp, rfl⟩
    | cons epoch rest ih =>
      obtain ⟨⟨streamId, firstSequence, records, isEpoch⟩, others⟩ := List.forall_mem_cons.mp encoded
      obtain ⟨valid, rfl⟩ := PreparedEpoch.new_eq_ok.mp isEpoch
      obtain ⟨sources, restValid, rfl⟩ := ih others
      exact ⟨_ :: sources, List.forall_mem_cons.mpr ⟨valid, restValid⟩, rfl⟩
  obtain ⟨some, length, commits⟩ := commits_prepareGroup valid isOk
  refine ⟨some, flatten_groupSlices pending, ?_, commits⟩
  rw [length, List.map_map]
  rfl

end

/-- A write in several parts, one that makes no progress, and a group of two epochs. -/
theorem vectored_write_exact_sample :
    (writeAllVectored .closed [[1, 2], [3]] [.wrote 1, .interrupted, .wrote 2]).1 = [1, 2, 3] ∧
    (writeAllVectored .closed [[1, 2], [3]] [.wrote 1, .wrote 0]).1 <+: [1, 2, 3] ∧
    let epochs := [@Epoch.prepared Hasher.fnv ⟨1, 0, [⟨[], [9]⟩]⟩,
      @Epoch.prepared Hasher.fnv ⟨1, 1, [⟨[4], []⟩]⟩]
    ∃ pending, @prepareGroup Hasher.fnv (.segment (.log 0)) 64 epochs = .ok pending ∧
      (groupSlices pending).flatten.length = (epochs.map (·.encodedBytes)).sum ∧
      ∀ write, pending[1]? = some write → @EpochCommit.decode Hasher.fnv write.commit =
        .ok ⟨64 + (groupSlices (pending.take 1)).flatten.length, write.epoch.encodedBytes,
          @epochDigest Hasher.fnv write.epoch.header write.epoch.descriptors⟩ := by
  let _ : Hasher := Hasher.fnv
  obtain ⟨handed, -, group, -⟩ := @vectored_write_exact Hasher.fnv
  refine ⟨(handed _ _ _).2 rfl, (handed _ _ _).1, ?_⟩
  intro epochs
  have isOk : (@prepareGroup Hasher.fnv (.segment (.log 0)) 64 epochs).toOption.isSome = true := by
    decide +kernel
  obtain ⟨pending, prepared⟩ := Option.isSome_iff_exists.mp isOk
  have prepared := toOption_eq_some.mp prepared
  obtain ⟨-, -, length, commits⟩ := group _ 64 epochs pending (fun epoch member => by
    obtain rfl | rfl := List.mem_pair.mp member
    · exact ⟨_, _, _, PreparedEpoch.new_eq_ok.mpr ⟨⟨by decide, by decide, by decide⟩, rfl⟩⟩
    · exact ⟨_, _, _, PreparedEpoch.new_eq_ok.mpr ⟨⟨by decide, by decide, by decide⟩, rfl⟩⟩) prepared
  exact ⟨pending, prepared, length, fun write => commits 1 write⟩

end Camus
