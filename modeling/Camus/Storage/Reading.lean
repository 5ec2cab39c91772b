/-
**What is pending, and what a read selects.**

* `Storage.Pends` — a pending entry of a stream and its record.
* `pending_exact` — the pending entries of an open root are its unreleased records.
* `selection_longest` — a read selects the longest prefix of them within its limits.
-/

import Camus.Storage.Opened

namespace Camus

open Codec Checked Disk FaultIo Result

variable {storage : Storage} {streamId : StreamId} {limits : ReadLimits} {selection selected : Selection}
  {entries : List (Nat × RecordPointer)} {entry : Nat × RecordPointer}

/-- A pending entry of a stream and its record. -/
def Storage.Pends (storage : Storage) (streamId : StreamId) (entry : Nat × RecordPointer)
    (record : StoredRecord) : Prop :=
  Placed storage.segments entry.2.segmentId entry.2.ordinal record ∧ record.streamId = streamId ∧
    record.sequence = entry.1 ∧ record.released = false

theorem pends_iff (indexes : Indexes storage.segments storage.streams fun _ _ => True) :
    (storage.stream streamId).pending[entry.1]? = some entry.2 ↔
      ∃ record, storage.Pends streamId entry record := by
  constructor
  · intro isPending
    obtain ⟨-, found⟩ := indexes.place streamId entry.1 entry.2 isPending
    exact found
  · rintro ⟨record, placed, rfl, isSequence, unreleased⟩
    rw [← isSequence]
    exact indexes.pending _ _ record trivial placed unreleased

/-- **The records of the longest prefix of some pending entries** whose payloads fit a limit, some
bytes of which are used. -/
def Storage.Longest (storage : Storage) (streamId : StreamId) (maxBytes used : Nat)
    (entries : List (Nat × RecordPointer)) (records : List StoredRecord) : Prop :=
  ∃ taken left bytes, entries = taken ++ left ∧ List.Forall₂ (storage.Pends streamId) taken records ∧
    bytes = used + (records.map (·.payloadLen)).sum ∧ bytes ≤ maxBytes ∧
    ∀ next ∈ left.head?, ∃ record, storage.Pends streamId next record ∧
      maxBytes < bytes + record.payloadLen

/-- The loop of a read, from any selection on. -/
theorem selectRecords_longest
    (pends : ∀ entry ∈ entries, ∃ record, storage.Pends streamId entry record)
    (fits : selection.payloadBytes ≤ limits.maxBytes)
    (selects : storage.selectRecords streamId limits selection entries = .ok selected) :
    (selected.records = [] → entries = []) ∧ ∃ records,
      selected.records = selection.records ++ records ∧
      storage.Longest streamId limits.maxBytes selection.payloadBytes entries records := by
  induction entries generalizing selection with
  | nil =>
    cases selects
    exact ⟨fun _ => rfl, [], by simp, [], [], _, rfl, .nil, rfl, fits, by simp⟩
  | cons entry rest ih =>
    simp only [Storage.selectRecords, Storage.pendingRecord, bind_eq_ok, orError_eq_ok,
      Option.bind_eq_some_iff, checkedAdd_eq_some] at selects
    obtain ⟨record, placed, _, ⟨rfl, -⟩, selects⟩ := selects
    obtain ⟨other, own⟩ := pends entry List.mem_cons_self
    cases own.1.unique placed
    split at selects
    · -- The loop ends at the first record that does not fit, or refuses if it has selected none.
      rename_i large
      split at selects
      · cases selects
      · rename_i notEmpty
        cases selects
        refine ⟨(absurd · notEmpty), [], by simp, [], entry :: rest, _, rfl, .nil, rfl, fits, ?_⟩
        rintro _ ⟨⟩
        exact ⟨record, own, large⟩
    · rename_i small
      obtain ⟨-, records, whole, taken, left, _, rfl, places, rfl, longest⟩ :=
        ih (fun other member => pends other (List.mem_cons_of_mem _ member))
          (Nat.le_of_not_lt small) selects
      refine ⟨?_, record :: records, ?_, entry :: taken, left, _, rfl, .cons own places, ?_, longest⟩
      · simp [whole, Selection.add]
      · simp [whole, Selection.add]
      · simp [Selection.add, Nat.add_assoc]

section

variable [Hasher] {world : World}

/-- **The pending entries of an open root are its unreleased records**, each at its own place. -/
theorem pending_exact (reached : Reached world) :
    (world.storage.stream streamId).pending[entry.1]? = some entry.2 ↔
      ∃ record, world.storage.Pends streamId entry record :=
  pends_iff (sound_reached reached).indexes

end

theorem pending_exact_sample :
    ∃ (world : World) (record : StoredRecord), world.storage.Pends 1 (0, ⟨0, 0⟩) record := by
  have evaluated : (Sample.run .sample [Sample.append [Sample.unit 1]]).any (fun world =>
      decide ((world.storage.stream 1).pending[0]? = some ⟨0, 0⟩)) = true := by
    decide +kernel
  obtain ⟨world, isRun, isPending⟩ := exists_of_any evaluated
  exact ⟨world, (@pending_exact 1 (0, ⟨0, 0⟩) Hasher.fnv _ (Sample.reached_of_run isRun)).mp
    (of_decide_eq_true isPending)⟩

section

variable [Hasher] {world : World}

/-- **A read selects the longest prefix of the pending records within its limits**, and nothing only
if nothing is pending. -/
theorem selection_longest (reached : Reached world) (positive : limits.maxRecords ≠ 0)
    (selects : world.storage.selectRecords streamId limits ⟨[], [], 0⟩
      ((world.storage.stream streamId).pending.toList.take limits.maxRecords) = .ok selected) :
    world.storage.Longest streamId limits.maxBytes 0
        ((world.storage.stream streamId).pending.toList.take limits.maxRecords) selected.records ∧
      (selected.records = [] → (world.storage.stream streamId).pending.toList = []) := by
  obtain ⟨empty, records, whole, longest⟩ := selectRecords_longest (fun entry member =>
    (pends_iff (sound_reached reached).indexes).mp
      (Std.ExtTreeMap.mem_toList_iff_getElem?_eq_some.mp (List.mem_of_mem_take member)))
    (Nat.zero_le _) selects
  rw [List.nil_append] at whole
  rw [whole]
  exact ⟨longest, fun nothing => by simpa [positive] using empty (whole.trans nothing)⟩

end

/-- Of a record without bytes and one with a byte, only the first fits. -/
theorem selection_longest_sample : ∃ (world : World) (selected : Selection),
    world.storage.pendingRecords = 2 ∧ selected.records.length = 1 ∧
      world.storage.Longest 1 0 0 ((world.storage.stream 1).pending.toList.take 2) selected.records := by
  have evaluated : (Sample.run { Config.sample with segmentBytes := 256, maxEpochBytes := 160 }
      [Sample.append [Sample.unit 1], Sample.append [⟨1, [⟨[], [0]⟩]⟩]]).any (fun world =>
        decide (world.storage.pendingRecords = 2) &&
          (world.storage.selectRecords 1 ⟨2, 0⟩ ⟨[], [], 0⟩
            ((world.storage.stream 1).pending.toList.take 2)).toOption.any
              fun selected => selected.records.length = 1) = true := by
    decide +kernel
  obtain ⟨world, isRun, checked⟩ := exists_of_any evaluated
  simp only [Bool.and_eq_true, decide_eq_true_eq] at checked
  obtain ⟨two, chosen⟩ := checked
  obtain ⟨selected, isSelected, single⟩ := exists_of_any chosen
  exact ⟨world, selected, two, of_decide_eq_true single, (@selection_longest 1 ⟨2, 0⟩ selected
    Hasher.fnv world (Sample.reached_of_run isRun) (by decide) (toOption_eq_some.mp isSelected)).1⟩

end Camus
