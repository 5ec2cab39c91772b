/-
**Writing a group of epochs.**

The writer turns a group of epochs into the bytes of the group and a report of where each epoch and its
records lie.

* `prepareGroup_eq_ok`, `returns_writeEpochGroup` — the bytes and the report of a group.
* `prepareGroup_errors`, `addBoundary_errors`, `addUnreleased_errors` — the errors of the writer's
  arithmetic.
* `addBoundaries_eq_ok`, `addUnreleased_total` — what a segment in memory gains by the group.
-/

import Camus.Storage.SegmentImage

set_option linter.unusedSectionVars false

namespace Camus

open Codec Checked Disk FaultIo Result

variable {path : Artifact} {epochs : List Epoch} {start offset : Nat} {stored : StoredRecord}

variable [Hasher]

/-! ### Writing a group of epochs -/

/-- The writer's report of epochs written one after the other. -/
def writtenEpochs : Nat → List Epoch → List WrittenEpoch
  | _, [] => []
  | start, epoch :: rest =>
    ⟨epoch.stored start, epoch.commit start, start + epoch.length⟩ ::
      writtenEpochs (start + epoch.length) rest

/-- **The bytes and the report of a group of epochs.** -/
theorem prepareGroup_eq_ok {writes : List PendingEpochWrite} (valid : ∀ epoch ∈ epochs, epoch.Valid)
    (prepared : prepareGroup path start (epochs.map Epoch.prepared) = .ok writes) :
    (epochs ≠ [] → start + epochsLength epochs ≤ wordMax) ∧
      writes.flatMap PendingEpochWrite.bytes = epochsBytes start epochs ∧
      (writes.map fun write => (⟨write.records, write.commit, write.endOffset⟩ : WrittenEpoch)) =
        writtenEpochs start epochs := by
  induction epochs generalizing start writes with
  | nil =>
    cases prepared
    exact ⟨fun none => absurd rfl none, rfl, rfl⟩
  | cons epoch rest ih =>
    simp only [List.map_cons, prepareGroup, bind_eq_ok, pure_eq_ok] at prepared
    obtain ⟨write, first, others, later, rfl⟩ := prepared
    obtain ⟨room, rfl⟩ := (prepareEpochWrite_eq_ok (valid epoch List.mem_cons_self)).mp first
    obtain ⟨restRoom, bytes, report⟩ :=
      ih (fun other member => valid other (List.mem_cons_of_mem _ member)) later
    refine ⟨fun _ => ?_, ?_, ?_⟩
    · cases rest with
      | nil => simpa using room
      | cons next more =>
        have total := restRoom (List.cons_ne_nil _ _)
        rw [epochsLength_cons, ← Nat.add_assoc]
        exact total
    · rw [List.flatMap_cons, bytes, PendingEpochWrite.bytes_prepared, epochsBytes]
    · rw [List.map_cons, report, writtenEpochs]

/-- What a successful write of a group reports, and what it does to the file. -/
theorem returns_writeEpochGroup {file : Nat} {fs left : Fs} {written : List WrittenEpoch}
    (valid : ∀ epoch ∈ epochs, epoch.Valid)
    (returned : Returns (writeEpochGroup file path start (epochs.map Epoch.prepared)) fs written left) :
    written = writtenEpochs start epochs ∧ (epochs ≠ [] → start + epochsLength epochs ≤ wordMax) ∧
      (epochs = [] ∧ left = fs ∨
        left = fs.modifyNode file (FileNode.append (epochsBytes start epochs))) := by
  unfold writeEpochGroup at returned
  split at returned
  · rename_i none
    obtain rfl := List.map_eq_nil_iff.mp none
    obtain ⟨rfl, rfl⟩ := Returns.result returned
    exact ⟨rfl, fun some => absurd rfl some, .inl ⟨rfl, rfl⟩⟩
  · obtain ⟨writes, prepared, returned⟩ := returned.bind_ofExcept
    obtain ⟨rfl, rfl⟩ := (Returns.bind_step returned).pure
    obtain ⟨room, bytes, report⟩ := prepareGroup_eq_ok valid prepared
    exact ⟨report, room, .inr (by rw [bytes])⟩

/-! ### Errors of the writer -/

section Errors

variable (kind : Error → Prop) (corrupt : ∀ path offset message, kind (.corruption path offset message))

include corrupt

theorem malformed_errors {α : Type} (path : Artifact) (offset : Nat) (value : FormatResult α) :
    Result.Errors kind (malformed path offset value) :=
  errors_mapError fun _ => corrupt _ _ _

theorem placeRecords_errors (path : Artifact) (streamId : StreamId) (firstSequence index offset : Nat)
    (descriptors : List Bytes) :
    Result.Errors kind
      (placeRecords path streamId firstSequence index offset descriptors) := by
  induction descriptors generalizing index offset with
  | nil => exact errors_ok _
  | cons encoded rest ih =>
    refine errors_bind (malformed_errors kind corrupt _ _ _) fun _ _ => ?_
    refine errors_bind (errors_orError fun _ => corrupt _ _ _) fun _ _ => ?_
    refine errors_bind (errors_orError fun _ => corrupt _ _ _) fun _ _ => ?_
    refine errors_bind (errors_orError fun _ => corrupt _ _ _) fun _ _ => ?_
    refine errors_bind (errors_orError fun _ => corrupt _ _ _) fun _ _ => ?_
    exact errors_bind (ih _ _) fun _ _ => errors_pure _

theorem prepareGroup_errors (path : Artifact) (offset : Nat) (epochs : List PreparedEpoch) :
    Result.Errors kind (prepareGroup path offset epochs) := by
  induction epochs generalizing offset with
  | nil => exact errors_ok _
  | cons epoch rest ih =>
    refine errors_bind ?_ fun _ _ =>
      errors_bind (ih _) fun _ _ => errors_pure _
    refine errors_bind (errors_orError fun _ => corrupt _ _ _) fun _ _ => ?_
    refine errors_bind (placeRecords_errors kind corrupt _ _ _ _ _ _) fun _ _ => ?_
    exact errors_bind (errors_orError fun _ => corrupt _ _ _) fun _ _ => errors_pure _

theorem addBoundary_errors (path : Artifact) (offset : WrittenEpoch → Nat)
    (found : List StoredRecord × List EpochBoundary) (written : List WrittenEpoch) :
    Result.Errors kind
      (tryFold (addBoundary path offset) found written) :=
  errors_tryFold fun _ _ _ =>
    errors_bind (errors_orError fun _ => corrupt _ _ _) fun _ _ => errors_pure _

theorem addUnreleased_errors (path : Artifact) (offset total : Nat) (written : List WrittenEpoch) :
    Result.Errors kind
      (tryFold (Segment.addUnreleased path offset) total written) :=
  errors_tryFold fun _ _ _ =>
    errors_bind (errors_orError fun _ => corrupt _ _ _) fun _ _ =>
      errors_orError fun _ => corrupt _ _ _

end Errors

/-! ### The report of the writer -/

theorem groupEnd_writtenEpochs (start : Nat) (epochs : List Epoch) :
    groupEnd start (writtenEpochs start epochs) = start + epochsLength epochs := by
  induction epochs generalizing start with
  | nil => rfl
  | cons epoch rest ih =>
    cases rest with
    | nil => simp [groupEnd, writtenEpochs]
    | cons next more =>
      have later := ih (start + epoch.length)
      rw [epochsLength_cons, ← Nat.add_assoc, ← later]
      simp [groupEnd, writtenEpochs, List.getLast?_cons]

/-- The records and boundaries a writer keeps of a group. -/
theorem addBoundaries_eq_ok {offset : WrittenEpoch → Nat} {records found : List StoredRecord}
    {boundaries after : List EpochBoundary}
    (added : tryFold (addBoundary path offset) (records, boundaries)
      (writtenEpochs start epochs) = .ok (found, after)) :
    found = records ++ storedEpochs start epochs ∧
      after = boundaries ++ epochsBoundaries records.length start epochs := by
  induction epochs generalizing start records boundaries with
  | nil =>
    cases added
    simp [storedEpochs, epochsBoundaries]
  | cons epoch rest ih =>
    rw [writtenEpochs, tryFold_cons, bind_eq_ok] at added
    obtain ⟨next, first, later⟩ := added
    simp only [addBoundary, bind_eq_ok, orError_eq_ok, pure_eq_ok] at first
    obtain ⟨count, counted, rfl⟩ := first
    obtain ⟨rfl, -⟩ := toWord_eq_some.mp counted
    obtain ⟨rfl, rfl⟩ := ih later
    simp only [storedEpochs, epochsBoundaries, List.append_assoc, List.length_append,
      Epoch.stored_length, List.singleton_append, and_self]

theorem addUnreleased_total {total sum : Nat}
    (added : tryFold (Segment.addUnreleased path offset) total
      (writtenEpochs start epochs) = .ok sum) : sum = total + (epochRecords epochs).length := by
  induction epochs generalizing start total with
  | nil =>
    cases added
    rfl
  | cons epoch rest ih =>
    rw [writtenEpochs, tryFold_cons, bind_eq_ok] at added
    obtain ⟨next, first, later⟩ := added
    simp only [Segment.addUnreleased, bind_eq_ok, orError_eq_ok] at first
    obtain ⟨count, counted, summed⟩ := first
    obtain ⟨rfl, -⟩ := toWord_eq_some.mp counted
    obtain ⟨rfl, -⟩ := checkedAdd_eq_some.mp summed
    rw [ih later]
    simp [epochRecords, Nat.add_assoc]

theorem storedRecords_unreleased {streamId : StreamId} {sequence : Nat} {records : List Record}
    (member : stored ∈ storedRecords streamId sequence offset records) :
    stored.released = false := by
  induction records generalizing sequence offset with
  | nil => cases member
  | cons record rest ih =>
    rcases List.mem_cons.mp member with rfl | later
    · rfl
    · exact ih later

theorem storedEpochs_unreleased (member : stored ∈ storedEpochs start epochs) :
    stored.released = false := by
  induction epochs generalizing start with
  | nil => cases member
  | cons epoch rest ih =>
    rcases List.mem_append.mp member with first | later
    · exact storedRecords_unreleased first
    · exact ih later

theorem countP_storedEpochs (start : Nat) (epochs : List Epoch) :
    ((storedEpochs start epochs).countP fun record => !record.released) =
      (epochRecords epochs).length := by
  rw [List.countP_eq_length.mpr fun stored member => by simp [storedEpochs_unreleased member],
    storedEpochs_length]

end Camus
