/-
**The storage jobs of the reactor.**

* `Storage.appendPrefixForActiveSegment` — the units that go to one segment.
* `selectLargestAdmissiblePrefix` — the binary search for the largest admissible prefix.
* `executeAppendJob` — selects a prefix of the units of an append group and appends it.
* `Storage.Stores`, `possible_executeAppendJob` — what such a job may answer, and that its identities
  are those under which it stored the records.

Every reading of the clock is an argument (`JobClocks`).
-/

import Camus.Storage.Capacity
import Camus.Storage.Effects

set_option linter.unusedSectionVars false

namespace Camus

open Codec Checked Disk FaultIo Std

variable {bounded : Bool} {units : List AppendUnit}

/-! ### Selection -/

/-- The units from the left that fit some bytes. -/
def fittingUnits (available : Nat) : Nat → List AppendUnit → Except Error Nat
  | _, [] => .ok 0
  | bytes, unit :: rest => do
    let epochBytes ← encodedEpochBytes unit.records
    match checkedAdd bytes epochBytes with
    | none => .ok 0
    | some projected =>
      if available < projected then .ok 0
      else do
        let more ← fittingUnits available projected rest
        return more + 1

/-- The units of a group that go to one segment: those that fit the active segment, or all of them
where a new segment is due. -/
def Storage.appendPrefixForActiveSegment (storage : Storage) (units : List AppendUnit)
    (clock : Clock) : Except Error Nat :=
  match storage.activeSegment with
  | none => .ok units.length
  | some active => do
    let expired ← storage.activeExpired clock
    if expired then .ok units.length else do
      let available ← storage.segmentEpochCapacity active
      let selected ← fittingUnits available 0 units
      return if selected = 0 then units.length else selected

/-- The binary search between an admitted and a rejected prefix. The first argument bounds the
rounds. -/
def searchAdmissible (check : Nat → Except Error CapacityCheck) : Nat → Nat → Nat → Except Error Nat
  | 0, admitted, _ => .ok admitted
  | fuel + 1, admitted, rejected =>
    if rejected - admitted ≤ 1 then .ok admitted
    else do
      let selected := admitted + (rejected - admitted) / 2
      let answer ← check selected
      if answer = .admitted then searchAdmissible check fuel selected rejected
      else searchAdmissible check fuel admitted selected

/-- The largest admissible prefix of some units, or why not even the first is admitted. -/
def selectLargestAdmissiblePrefix (unitCount : Nat) (check : Nat → Except Error CapacityCheck) :
    Except Error (Option Nat × CapacityCheck) := do
  let first ← check 1
  if first ≠ .admitted then return (none, first)
  else if unitCount = 1 then return (some unitCount, .admitted)
  else do
    let all ← check unitCount
    if all = .admitted then return (some unitCount, .admitted)
    else do
      let admitted ← searchAdmissible check unitCount 1 unitCount
      return (some admitted, .admitted)

/-- The largest prefix of some units that fits a bounded root. -/
def Storage.largestAdmissibleAppendPrefix (storage : Storage) (units : List AppendUnit)
    (clocks : Nat → Clock) : Except Error (Option Nat × CapacityCheck) :=
  selectLargestAdmissiblePrefix units.length fun selected =>
    storage.checkAppendCapacity (units.take selected) (clocks selected)

/-- The answer asks the client to wait. -/
def CapacityCheck.isWait : CapacityCheck → Bool
  | .wait _ _ => true
  | _ => false

/-! ### The append job -/

/-- The readings of the clock in an append job: for the physical prefix, for the check of each
prefix, for both after a promoted reclamation, and for the append. -/
structure JobClocks where
  physical : Clock
  check : Nat → Clock
  physicalAgain : Clock
  checkAgain : Nat → Clock
  expiry : Clock
  creation : Clock

def JobClocks.sample : JobClocks :=
  ⟨.millis 5, fun _ => .millis 5, .millis 5, fun _ => .millis 5, .millis 5, .millis 5⟩

/-- What an append job answers. -/
inductive AppendJob where
  | complete (outputs : List (List RecordId)) (selected : Nat)
  | capacity (check : CapacityCheck)
  | failure (error : Error) (selected : Nat)
deriving DecidableEq

/-- The errors a job reports; a panic ends the job without a report. -/
def reported : Error → Bool
  | .panicked _ => false
  | _ => true

section

variable [Hasher]

/-- Selects the units of a bounded append, after a promoted reclamation where that can help. -/
def selectUnits (units : List AppendUnit) (physicalLimit : Nat) (clocks : JobClocks) :
    StorageIo (Option Nat × CapacityCheck) := do
  let storage ← getStorage
  let selected ← ofExcept
    (storage.largestAdmissibleAppendPrefix (units.take physicalLimit) clocks.check)
  if selected.2.isWait then do
    let work ← ofExcept storage.hasAutomaticReclaimWork
    if work then do
      let _ ← reclaim .automatic
      let storage ← getStorage
      let physicalLimit ← ofExcept (storage.appendPrefixForActiveSegment units clocks.physicalAgain)
      ofExcept (storage.largestAdmissibleAppendPrefix (units.take physicalLimit) clocks.checkAgain)
    else result selected
  else result selected

/-- Appends the selected units. -/
def appendSelected (units : List AppendUnit) (selected : Nat) (clocks : JobClocks) :
    StorageIo AppendJob := do
  let appended ← attempt reported (appendGroup (units.take selected) clocks.expiry clocks.creation)
  match appended with
  | .ok outputs => return .complete outputs selected
  | .error error => return .failure error selected

/-- **Executes the append of a group of units.** -/
def executeAppendJob (units : List AppendUnit) (bounded : Bool) (clocks : JobClocks) :
    StorageIo AppendJob := do
  let storage ← getStorage
  let physical ← attempt reported
    (ofExcept (storage.appendPrefixForActiveSegment units clocks.physical))
  match physical with
  | .error error => return .failure error 1
  | .ok physicalLimit =>
    if bounded then do
      let selection ← attempt reported (selectUnits units physicalLimit clocks)
      match selection with
      | .error error => return .failure error 1
      | .ok (none, capacity) => return .capacity capacity
      | .ok (some selected, _) => appendSelected units selected clocks
    else appendSelected units physicalLimit clocks

/-! ### What a job answers -/

/-- The identities of the records of an epoch. -/
def Epoch.ids (rootId : RootId) (epoch : Epoch) : List RecordId :=
  (List.range' epoch.firstSequence epoch.records.length).map fun sequence =>
    ⟨rootId, epoch.streamId, sequence⟩

/-- **The units are stored with these identities**: one epoch each, whose records are the last ones
of the active segment. -/
def Storage.Stores (storage : Storage) (units : List AppendUnit) (ids : List (List RecordId)) : Prop :=
  ∃ epochs : List Epoch, units = epochs.map Epoch.unit ∧
    ids = epochs.map (Epoch.ids storage.rootId) ∧
    (units ≠ [] → ∃ active segment older start, storage.activeSegment = some active ∧
      storage.segments[active]? = some segment ∧
      segment.records = older ++ storedEpochs start epochs)

theorem ids_writtenEpochs (rootId : RootId) (start : Nat) (epochs : List Epoch) :
    (writtenEpochs start epochs).map (WrittenEpoch.ids rootId) = epochs.map (Epoch.ids rootId) := by
  induction epochs generalizing start with
  | nil => rfl
  | cons epoch rest ih =>
    rw [writtenEpochs, List.map_cons, List.map_cons, ih]
    exact congrArg (· :: _) (ids_storedRecords rootId _ _ _ _)

section Returned

variable {world final : World} {ids : List (List RecordId)}

/-- **Every unit of a group is stored, with the identities that are returned for it.** -/
theorem stores_appendGroup {expiry creation : Clock}
    (returned : Returns (appendGroup units expiry creation) world ids final) :
    final.storage.Stores units ids := by
  rcases returns_appendGroup returned with ⟨rfl, rfl, -⟩ |
    ⟨prepared, rolled, written, commits, isPrepared, rolls, writes, rfl⟩
  · exact ⟨[], rfl, rfl, (absurd rfl ·)⟩
  obtain ⟨epochs, rfl, valid, rfl, -⟩ := prepareUnits_eq_ok isPrepared
  rcases returns_writeGroup writes with ⟨active, segment, appended, indexed, isActive, extended⟩ |
    ⟨segment, indexed, -, created⟩
  · have frame := indexDurableRecords_frame extended.indexes
    obtain ⟨-, shape, rfl⟩ := returns_segmentAppend valid extended.appends
    refine ⟨epochs, rfl, ?_, fun _ => ⟨active, appended, _, _, ?_, ?_, congrArg Segment.records shape⟩⟩
    · rw [ids_writtenEpochs, extended.left, frame]
    · rw [extended.left, frame]
      exact isActive
    · rw [extended.left, frame]
      exact ExtTreeMap.getElem?_insert_self
  · have frame := indexDurableRecords_frame created.indexes
    obtain ⟨createdAt, creates⟩ := created.creates
    obtain ⟨⟨-, -, isRecords, -⟩, rfl⟩ := returns_segmentCreate valid creates
    refine ⟨epochs, rfl, ?_, fun _ => ⟨rolled.storage.nextSegmentId, segment, [], _, ?_, ?_, isRecords⟩⟩
    · rw [ids_writtenEpochs, created.left, frame]
    · rw [created.left, frame]
    · rw [created.left, frame]
      exact ExtTreeMap.getElem?_insert_self

theorem capacity_selectLargestAdmissiblePrefix {unitCount : Nat}
    {check : Nat → Except Error CapacityCheck} {answer : CapacityCheck}
    (selected : selectLargestAdmissiblePrefix unitCount check = .ok (none, answer)) :
    answer ≠ .admitted := by
  simp only [selectLargestAdmissiblePrefix, Result.bind_eq_ok] at selected
  obtain ⟨first, -, selected⟩ := selected
  split at selected
  · rename_i refused
    cases selected
    exact refused
  · split at selected
    · cases selected
    · simp only [Result.bind_eq_ok] at selected
      obtain ⟨all, -, selected⟩ := selected
      split at selected
      · cases selected
      · simp only [Result.bind_eq_ok] at selected
        obtain ⟨admitted, -, selected⟩ := selected
        cases selected

/-- What an append job that left a storage may answer: the identities of the units it stored, or a
refusal of a bounded root, or an error. -/
def AppendJob.Possible (storage : Storage) (units : List AppendUnit) (bounded : Bool) :
    AppendJob → Prop
  | .complete outputs selected => storage.Stores (units.take selected) outputs
  | .capacity check => bounded = true ∧ check ≠ .admitted
  | .failure _ _ => True

theorem possible_appendSelected {selected : Nat} {clocks : JobClocks} {job : AppendJob}
    (returned : Returns (appendSelected units selected clocks) world job final) :
    job.Possible final.storage units bounded := by
  obtain ⟨appended, middle, attempted, returned⟩ := returned.bind
  rcases Returns.attempt attempted with ⟨outputs, rfl, appends⟩ | ⟨reason, rfl, -⟩
  · obtain ⟨rfl, rfl⟩ := Returns.pure returned
    exact stores_appendGroup appends
  · obtain ⟨rfl, -⟩ := Returns.pure returned
    trivial

theorem keeps_selectUnits (units : List AppendUnit) (physicalLimit : Nat) (clocks : JobClocks) :
    Keeps Storage.identity (selectUnits units physicalLimit clocks) := by
  refine keeps_bind keeps_getStorage fun _ => keeps_bind (keeps_ofExcept _) fun _ => ?_
  split
  · refine keeps_bind (keeps_ofExcept _) fun _ => ?_
    split
    · refine keeps_bind (keeps_reclaim _) fun _ => keeps_bind keeps_getStorage fun _ => ?_
      exact keeps_bind (keeps_ofExcept _) fun _ => keeps_ofExcept _
    · exact keeps_result _
  · exact keeps_result _

theorem keeps_appendSelected (units : List AppendUnit) (selected : Nat) (clocks : JobClocks) :
    Keeps Storage.identity (appendSelected units selected clocks) := by
  refine keeps_bind (keeps_attempt (keeps_appendGroup _ _ _)) fun appended => ?_
  cases appended <;> exact keeps_pure _

theorem keeps_executeAppendJob (units : List AppendUnit) (bounded : Bool) (clocks : JobClocks) :
    Keeps Storage.identity (executeAppendJob units bounded clocks) := by
  refine keeps_bind keeps_getStorage fun _ => ?_
  refine keeps_bind (keeps_attempt (keeps_ofExcept _)) fun physical => ?_
  split
  · exact keeps_pure _
  · split
    · refine keeps_bind (keeps_attempt (keeps_selectUnits _ _ _)) fun selection => ?_
      split
      · exact keeps_pure _
      · exact keeps_pure _
      · exact keeps_appendSelected _ _ _
    · exact keeps_appendSelected _ _ _

theorem capacity_selectUnits {physicalLimit : Nat} {clocks : JobClocks} {answer : CapacityCheck}
    (returned : Returns (selectUnits units physicalLimit clocks) world (none, answer) final) :
    answer ≠ .admitted := by
  obtain ⟨selected, isSelected, returned⟩ := (Returns.bind_getStorage returned).bind_ofExcept
  have unchanged : Returns (result selected : StorageIo _) world (none, answer) final →
      answer ≠ .admitted := by
    intro returned
    rw [← (Returns.result returned).1] at isSelected
    exact capacity_selectLargestAdmissiblePrefix isSelected
  split at returned
  · obtain ⟨work, -, returned⟩ := returned.bind_ofExcept
    split at returned
    · obtain ⟨_, middle, -, returned⟩ := returned.bind
      obtain ⟨limit, -, returned⟩ := (Returns.bind_getStorage returned).bind_ofExcept
      exact capacity_selectLargestAdmissiblePrefix (Returns.ofExcept returned).1
    · exact unchanged returned
  · exact unchanged returned

/-- **What an append job may answer.** -/
theorem possible_executeAppendJob {clocks : JobClocks} {job : AppendJob}
    (returned : Returns (executeAppendJob units bounded clocks) world job final) :
    job.Possible final.storage units bounded := by
  obtain ⟨physical, middle, attempted, answers⟩ := (Returns.bind_getStorage returned).bind
  rcases Returns.attempt attempted with ⟨limit, rfl, selects⟩ | ⟨reason, rfl, -⟩
  · obtain ⟨-, rfl⟩ := Returns.ofExcept selects
    simp only at answers
    split at answers
    · obtain ⟨selection, chosen, attempted, answers⟩ := answers.bind
      rcases Returns.attempt attempted with ⟨⟨selected, answer⟩, rfl, selects⟩ | ⟨reason, rfl, -⟩
      · cases selected with
        | none =>
          obtain ⟨rfl, -⟩ := Returns.pure answers
          exact ⟨by assumption, capacity_selectUnits selects⟩
        | some selected => exact possible_appendSelected answers
      · obtain ⟨rfl, -⟩ := Returns.pure answers
        trivial
    · exact possible_appendSelected answers
  · obtain ⟨rfl, -⟩ := Returns.pure answers
    trivial

end Returned

end

end Camus
