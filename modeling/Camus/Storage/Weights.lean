/-
**Admission along the prefixes of a queue.**

The weight that an admission check projects grows with the group, as long as the groups go to the same
segment:

* `demandOf` — what the check counts for a group whose epochs are short enough to be counted.
* `Storage.weightOf`, `weightOf_mono` — the projected weight as a formula, and that it grows.
* `checkAppendCapacity_eq_ok` — what the check answers, and that it answers exactly if nothing in its
  formulas overflows; `admitted_iff` — it admits a group exactly if the weight is within the capacity.
-/

import Camus.Storage.Projection

namespace Camus

open Codec Checked Disk FaultIo Result Std

variable {unit : AppendUnit} {loads others : List (Nat × Nat)} {fewer count : Nat}

/-! ### Demands -/

/-- Adds one unit to a demand, without a bound. -/
def GroupDemand.extend (demand : GroupDemand) (unit : AppendUnit) : GroupDemand where
  recordCounts := demand.recordCounts.insert unit.streamId
    (demand.recordCounts[unit.streamId]?.getD 0 + unit.records.length)
  totalRecords := demand.totalRecords + unit.records.length
  groupBytes := demand.groupBytes + unit.bytes

/-- The demand of a group. -/
def demandOf (units : List AppendUnit) : GroupDemand := units.foldl GroupDemand.extend ⟨∅, 0, 0⟩

/-- Every unit of a queue has records. -/
def Filled (units : List AppendUnit) : Prop := ∀ unit ∈ units, unit.records ≠ []

theorem recordsLength_ge (records : List Record) : 40 * records.length ≤ recordsLength records := by
  induction records with
  | nil => exact Nat.le_refl _
  | cons record rest ih =>
    have length : 40 ≤ record.length := by
      unfold Record.length recordDescriptorLen
      omega
    rw [recordsLength_cons, List.length_cons]
    omega

/-- One step of the count. -/
theorem demand_add {demand : GroupDemand} (filled : unit.records ≠ [])
    (counted : ∀ streamId : StreamId, demand.recordCounts[streamId]?.getD 0 ≤ demand.totalRecords)
    (records : demand.totalRecords ≤ demand.groupBytes)
    (short : demand.groupBytes + unit.bytes ≤ wordMax) :
    demand.add unit = .ok (demand.extend unit) := by
  have many := recordsLength_ge unit.records
  have bytes : unit.bytes = epochHeaderLen + epochCommitLen + recordsLength unit.records := rfl
  have stream := counted unit.streamId
  simp only [GroupDemand.add, bind_eq_ok, orError_eq_ok, toWord_eq_some,
    checkedAdd_eq_some, pure_eq_ok]
  exact ⟨_, ⟨rfl, by omega⟩, _, ⟨rfl, by omega⟩, _, ⟨rfl, by omega⟩, _,
    encodedEpochBytes_eq_ok.mpr ⟨filled, by omega, rfl⟩, _, ⟨rfl, short⟩, rfl⟩

theorem demand_fold {units : List AppendUnit} {demand : GroupDemand} (filled : Filled units)
    (counted : ∀ streamId : StreamId, demand.recordCounts[streamId]?.getD 0 ≤ demand.totalRecords)
    (records : demand.totalRecords ≤ demand.groupBytes)
    (short : demand.groupBytes + groupLength units ≤ wordMax) :
    tryFold GroupDemand.add demand units = .ok (units.foldl GroupDemand.extend demand) := by
  induction units generalizing demand with
  | nil => rfl
  | cons unit rest ih =>
    rw [groupLength, List.map_cons, List.sum_cons] at short
    change demand.groupBytes + (unit.bytes + groupLength rest) ≤ wordMax at short
    have many := recordsLength_ge unit.records
    have bytes : unit.bytes = epochHeaderLen + epochCommitLen + recordsLength unit.records := rfl
    rw [tryFold_cons,
      demand_add (filled unit List.mem_cons_self) counted records (by omega), ok_bind]
    refine ih (fun other member => filled other (List.mem_cons_of_mem _ member)) ?_ ?_ ?_
    · intro streamId
      have old := counted streamId
      have here := counted unit.streamId
      show (demand.recordCounts.insert _ _)[streamId]?.getD 0 ≤
        demand.totalRecords + unit.records.length
      rw [ExtTreeMap.getElem?_insert]
      split
      · rw [Option.getD_some]
        omega
      · omega
    · show demand.totalRecords + unit.records.length ≤ demand.groupBytes + unit.bytes
      omega
    · show demand.groupBytes + unit.bytes + groupLength rest ≤ wordMax
      omega

/-- **Short groups can be counted.** -/
theorem demandOf_eq {units : List AppendUnit} (filled : Filled units)
    (short : groupLength units ≤ wordMax) :
    tryFold GroupDemand.add ⟨∅, 0, 0⟩ units = .ok (demandOf units) :=
  demand_fold filled (fun streamId => by simp) (Nat.le_refl _) (by simpa using short)

/-- A demand is part of another one. -/
structure GroupDemand.Within (smaller larger : GroupDemand) : Prop where
  bytes : smaller.groupBytes ≤ larger.groupBytes
  records : smaller.totalRecords ≤ larger.totalRecords
  streams : ∀ streamId, streamId ∈ smaller.recordCounts → streamId ∈ larger.recordCounts

theorem groupLength_append (units more : List AppendUnit) :
    groupLength (units ++ more) = groupLength units + groupLength more := by
  rw [groupLength, List.map_append, List.sum_append]
  rfl

theorem groupLength_take_le (units : List AppendUnit) (le : fewer ≤ count) :
    groupLength (units.take fewer) ≤ groupLength (units.take count) := by
  obtain ⟨more, rfl⟩ := Nat.exists_eq_add_of_le le
  rw [List.take_add, groupLength_append]
  exact Nat.le_add_right _ _

theorem groupLength_take_le_all (units : List AppendUnit) (count : Nat) :
    groupLength (units.take count) ≤ groupLength units := by
  have whole := congrArg groupLength (List.take_append_drop count units)
  rw [groupLength_append] at whole
  omega

theorem Filled.take {units : List AppendUnit} (filled : Filled units) (count : Nat) :
    Filled (units.take count) := fun unit member => filled unit (List.mem_of_mem_take member)

/-- The demand of a group. -/
theorem demandOf_of {units : List AppendUnit} (filled : Filled units)
    (short : groupLength units ≤ wordMax) : (demandOf units).Of units := demand_of (demandOf_eq filled short)

/-- **The demand grows along a queue.** -/
theorem within_take {units : List AppendUnit} (filled : Filled units)
    (short : groupLength units ≤ wordMax) (le : fewer ≤ count) :
    (demandOf (units.take fewer)).Within (demandOf (units.take count)) := by
  have less := demandOf_of (filled.take fewer) ((groupLength_take_le_all units fewer).trans short)
  have more := demandOf_of (filled.take count) ((groupLength_take_le_all units count).trans short)
  obtain ⟨rest, rfl⟩ := Nat.exists_eq_add_of_le le
  refine ⟨?_, ?_, fun streamId member => ?_⟩
  · rw [less.bytes, more.bytes]
    exact groupLength_take_le units le
  · rw [less.records, more.records, List.take_add, groupRecords, groupRecords, List.map_append,
      List.sum_append]
    exact Nat.le_add_right _ _
  · rw [more.streams, List.take_add, List.map_append, List.mem_append]
    exact .inl ((less.streams streamId).mp member)

/-! ### Reserves -/

/-- One load is covered by another. -/
def LoadLe (load other : Nat × Nat) : Prop := load.1 ≤ other.1 ∧ load.2 ≤ other.2

theorem entriesOf_mono (le : List.SublistForall₂ LoadLe loads others) :
    entriesOf loads ≤ entriesOf others := by
  induction le with
  | nil => exact Nat.zero_le _
  | cons first _ ih =>
    rw [entriesOf_cons, entriesOf_cons]
    exact Nat.add_le_add (entryBytes_mono first.1) ih
  | cons_right _ ih =>
    rw [entriesOf_cons]
    exact ih.trans (Nat.le_add_left _ _)

theorem largestOf_mono (le : List.SublistForall₂ LoadLe loads others) :
    largestOf loads ≤ largestOf others := by
  induction le with
  | nil => exact Nat.zero_le _
  | cons first _ ih =>
    rw [largestOf_cons, largestOf_cons]
    exact max_le_max first.2 ih
  | cons_right _ ih =>
    rw [largestOf_cons]
    exact ih.trans (Nat.le_max_right _ _)

/-- **The reserve grows with the streams and the loads.** -/
theorem reserveOf_mono (config : Config) {streams less footer : Nat} (known : fewer ≤ streams)
    (le : List.SublistForall₂ LoadLe loads others) (sealed : less ≤ footer) :
    reserveOf config fewer loads less ≤ reserveOf config streams others footer := by
  have entries := entriesOf_mono le
  have group := groupReserve_mono config (largestOf_mono le)
  unfold reserveOf checkpointBytes
  omega

namespace Storage

variable (storage : Storage) {demand larger : GroupDemand} (target : Option Nat)

theorem unknownStreams_mono (within : demand.Within larger) :
    storage.unknownStreams demand ≤ storage.unknownStreams larger :=
  (List.subperm_of_subset ExtTreeMap.nodup_keys fun streamId member =>
    ExtTreeMap.mem_keys.mpr (within.streams streamId (ExtTreeMap.mem_keys.mp member))).countP_le _

theorem addedStreams_mono (within : demand.Within larger) (segmentId : Nat) :
    storage.addedStreams demand segmentId ≤ storage.addedStreams larger segmentId :=
  (List.subperm_of_subset ExtTreeMap.nodup_keys fun streamId member =>
    ExtTreeMap.mem_keys.mpr (within.streams streamId (ExtTreeMap.mem_keys.mp member))).countP_le _

theorem recordCounts_size_mono {demand larger : GroupDemand} (within : demand.Within larger) :
    demand.recordCounts.size ≤ larger.recordCounts.size := by
  rw [← ExtTreeMap.length_keys, ← ExtTreeMap.length_keys]
  exact (List.subperm_of_subset ExtTreeMap.nodup_keys fun streamId member =>
    ExtTreeMap.mem_keys.mpr (within.streams streamId (ExtTreeMap.mem_keys.mp member))).length_le

theorem projectedLoads_mono (within : demand.Within larger) :
    List.SublistForall₂ LoadLe (storage.projectedLoads demand target)
      (storage.projectedLoads larger target) := by
  have records := within.records
  refine List.sublistForall₂_iff.mpr ⟨_, List.rel_append ?_ ?_, List.Sublist.refl _⟩
  · rw [List.forall₂_map_left_iff, List.forall₂_map_right_iff, List.forall₂_same]
    intro entry _
    have added := storage.addedStreams_mono within entry.1
    unfold LoadLe projectedLoad
    constructor <;> split <;> omega
  · cases target with
    | none => exact .cons ⟨records, recordCounts_size_mono within⟩ .nil
    | some active => exact .nil

/-- The loads grow by a group. -/
theorem loads_le_projectedLoads (demand : GroupDemand) :
    List.SublistForall₂ LoadLe storage.loads (storage.projectedLoads demand target) := by
  rw [loads_eq, loadsOf, projectedLoads]
  refine List.sublistForall₂_iff.mpr ⟨_, ?_, List.sublist_append_left _ _⟩
  rw [List.forall₂_map_left_iff, List.forall₂_map_right_iff, List.forall₂_same]
  exact fun entry _ => ⟨Nat.le_add_right _ _, Nat.le_add_right _ _⟩

/-! ### Weights -/

/-- The files of a root without segments, as a compaction writes them for the streams after a
group. -/
def compactedBytes (storage : Storage) (demand : GroupDemand) : Nat :=
  rootSuperblockLen + checkpointBytes (storage.streamsAfter demand) + manifestLogHeaderLen

/-- What a group adds to a root without segments: a segment and the reserve of the root after it. -/
def groupWeight (storage : Storage) (demand : GroupDemand) : Nat :=
  segmentHeaderLen + demand.groupBytes + checkpointBytes (storage.streamsAfter demand) +
    entryBytes demand.totalRecords + groupReserve storage.config demand.recordCounts.size +
    segmentFooterLen

/-- The weight of a root that holds nothing but a group. -/
def minimumWeight (storage : Storage) (demand : GroupDemand) : Nat :=
  storage.compactedBytes demand + storage.groupWeight demand

/-- The files of a root after a group that goes to some target. -/
def filesAfter (storage : Storage) (demand : GroupDemand) (target : Option Nat) : Nat :=
  storage.actualFileBytes + demand.groupBytes + (if target.isNone then segmentHeaderLen else 0) +
    (if storage.activeSegment.isSome && target.isNone then segmentFooterLen else 0) +
    (if storage.activeSegment.isSome && target.isNone then 80 else 0)

/-- **The weight of a root after a group**: its files and its reserve. -/
def weightOf (storage : Storage) (demand : GroupDemand) (target : Option Nat) : Nat :=
  storage.filesAfter demand target + reserveOf storage.config (storage.streamsAfter demand)
    (storage.projectedLoads demand target) segmentFooterLen

/-- **The weight grows with the group.** -/
theorem weightOf_mono (within : demand.Within larger) :
    storage.weightOf demand target ≤ storage.weightOf larger target := by
  have bytes := within.bytes
  have streams : storage.streamsAfter demand ≤ storage.streamsAfter larger :=
    Nat.add_le_add_left (storage.unknownStreams_mono within) _
  have reserve := reserveOf_mono storage.config streams
    (storage.projectedLoads_mono target within) (Nat.le_refl segmentFooterLen)
  unfold weightOf filesAfter
  omega

/-- The weight of a root: its files and its reserve. -/
def weight (storage : Storage) : Nat :=
  storage.actualFileBytes +
    reserveOf storage.config storage.streams.size storage.loads storage.reservedFooter

/-- A root weighs more after a group. -/
theorem weight_le_weightOf (demand : GroupDemand) : storage.weight ≤ storage.weightOf demand target := by
  have footer : storage.reservedFooter ≤ segmentFooterLen := by
    unfold reservedFooter
    split <;> omega
  have reserve := reserveOf_mono storage.config (Nat.le_add_right storage.streams.size
    (storage.unknownStreams demand)) (storage.loads_le_projectedLoads target demand) footer
  unfold weight weightOf filesAfter
  change _ ≤ _ + reserveOf storage.config (storage.streams.size + storage.unknownStreams demand) _ _
  omega

theorem minimumWeight_mono (within : demand.Within larger) :
    storage.minimumWeight demand ≤ storage.minimumWeight larger := by
  have bytes := within.bytes
  have unknown := storage.unknownStreams_mono within
  have entry := entryBytes_mono within.records
  have group := groupReserve_mono storage.config (recordCounts_size_mono within)
  unfold minimumWeight compactedBytes groupWeight streamsAfter checkpointBytes
  omega

/-! ### When the check answers -/

/-- Nothing overflows when a group is checked. -/
structure Computes (storage : Storage) (totalBytes : Nat) (demand : GroupDemand) (target : Option Nat) :
    Prop where
  weight : storage.weightOf demand target ≤ wordMax
  minimum : totalBytes < storage.weightOf demand target → storage.minimumWeight demand ≤ wordMax

/-- **What a group of appends is answered**, where nothing overflows. -/
def verdict (storage : Storage) (totalBytes : Nat) (demand : GroupDemand) (target : Option Nat) :
    CapacityCheck :=
  if storage.weightOf demand target ≤ totalBytes then .admitted
  else if totalBytes < storage.minimumWeight demand then
    .exceeds (storage.minimumWeight demand) totalBytes
  else .wait (storage.weightOf demand target - storage.weight) (totalBytes - storage.weight)

theorem minimumRootWeightAfterAppend_eq_ok {minimum : Nat} :
    storage.minimumRootWeightAfterAppend demand = .ok minimum ↔
      minimum = storage.minimumWeight demand ∧ minimum ≤ wordMax := by
  have streams : storage.streamsAfter demand ≤ checkpointBytes (storage.streamsAfter demand) := by
    unfold checkpointBytes
    omega
  have size : demand.recordCounts.size ≤ groupReserve storage.config demand.recordCounts.size := by
    unfold groupReserve
    omega
  simp only [minimumRootWeightAfterAppend, bind_eq_ok, orError_eq_ok,
    Option.bind_eq_bind, Option.bind_eq_some_iff, checkedAdd_eq_some, toWord_eq_some,
    checkpointReserve_eq_some_iff, addSegmentReserve_eq_some_iff, toOption_eq_some,
    largestManifestGroup_eq_ok_iff, minimumWeight, compactedBytes, groupWeight]
  unfold streamsAfter at *
  constructor
  · rintro ⟨_, ⟨rfl, -⟩, _, ⟨rfl, -⟩, _, ⟨_, ⟨rfl, -⟩, _, ⟨rfl, -⟩, _, ⟨rfl, -⟩, rfl, -⟩, _, ⟨rfl, -⟩, _,
      ⟨rfl, -⟩, _, ⟨rfl, -⟩, _, ⟨rfl, -⟩, _, ⟨rfl, -⟩, rfl, fits⟩
    exact ⟨by omega, fits⟩
  · rintro ⟨rfl, short⟩
    refine ⟨_, ⟨rfl, ?_⟩, _, ⟨rfl, ?_⟩, _, ⟨_, ⟨rfl, ?_⟩, _, ⟨rfl, ?_⟩, _, ⟨rfl, ?_⟩, rfl, ?_⟩, _,
      ⟨rfl, ?_⟩, _, ⟨rfl, ?_⟩, _, ⟨rfl, ?_⟩, _, ⟨rfl, ?_⟩, _, ⟨rfl, ?_⟩, ?_, ?_⟩
    all_goals omega

/-- The files of a root account for the records of its segments. -/
def Accounted (storage : Storage) : Prop :=
  ∀ entry ∈ storage.segments.toList, entry.2.records.length ≤ storage.actualFileBytes ∧
    entry.2.uniqueStreams ≤ storage.actualFileBytes

theorem accounted_of_balanced {storage : Storage} (sound : storage.indexView.Sound)
    (balanced : storage.bookView.Balanced) : storage.Accounted := by
  rintro ⟨segmentId, segment⟩ member
  have found : storage.segments[segmentId]? = some segment :=
    ExtTreeMap.mem_toList_iff_getElem?_eq_some.mp member
  have below : segmentId < storage.nextSegmentId := sound.identity_of_found found
  have long : segmentHeaderLen + 16 * segment.records.length ≤ segment.fileLen :=
    balanced.long segmentId segment found
  have unique : segment.uniqueStreams = segment.streamIds.dedup.length :=
    balanced.unique segmentId segment found
  have fewer : segment.streamIds.dedup.length ≤ segment.records.length := by
    refine (List.dedup_sublist _).length_le.trans (Nat.le_of_eq ?_)
    exact List.length_map _
  have part : segment.fileLen ≤ storage.actualFileBytes := balanced.fileLen_le below found
  show segment.records.length ≤ _ ∧ segment.uniqueStreams ≤ _
  omega

end Storage

/-- The bytes of a demand account for its records and streams. -/
structure GroupDemand.Measured (demand : GroupDemand) : Prop where
  records : demand.totalRecords ≤ demand.groupBytes
  streams : demand.recordCounts.size ≤ demand.groupBytes

theorem GroupDemand.Of.measured {demand : GroupDemand} {units : List AppendUnit}
    (isDemand : demand.Of units) : demand.Measured := by
  constructor
  · rw [isDemand.records, isDemand.bytes, groupRecords, groupLength]
    refine List.sum_le_sum fun unit _ => ?_
    have many := recordsLength_ge unit.records
    unfold AppendUnit.bytes
    omega
  · have streams : demand.recordCounts.size ≤ units.length := by
      rw [← ExtTreeMap.length_keys, ← List.length_map (f := fun unit : AppendUnit => unit.streamId)]
      exact (List.subperm_of_subset ExtTreeMap.nodup_keys fun streamId member =>
        (isDemand.streams streamId).mp (ExtTreeMap.mem_keys.mp member)).length_le
    have units : units.length ≤ groupLength units := by
      rw [← Nat.mul_one units.length, groupLength, ← List.length_map (f := AppendUnit.bytes)]
      refine List.card_nsmul_le_sum _ 1 fun bytes member => ?_
      obtain ⟨unit, -, rfl⟩ := List.mem_map.mp member
      unfold AppendUnit.bytes epochHeaderLen
      omega
    rw [isDemand.bytes]
    omega

namespace Storage

section

variable {storage : Storage} {demand : GroupDemand} {units : List AppendUnit} {clock : Clock}
  {fits : Bool}

/-- What is counted in a root that can be weighed. -/
theorem countable_of_weight (accounted : storage.Accounted) (measured : demand.Measured)
    {target : Option Nat} (short : storage.weightOf demand target ≤ wordMax) :
    ∀ load ∈ storage.projectedLoads demand target, Countable load := by
  have records := measured.records
  have streams := measured.streams
  have added : ∀ segmentId, storage.addedStreams demand segmentId ≤ demand.recordCounts.size := by
    intro segmentId
    rw [← ExtTreeMap.length_keys]
    exact List.countP_le_length
  have files : storage.actualFileBytes + demand.groupBytes ≤ wordMax := by
    unfold weightOf filesAfter at short
    omega
  intro load member
  rcases List.mem_append.mp member with old | new
  · obtain ⟨entry, isEntry, rfl⟩ := List.mem_map.mp old
    obtain ⟨held, unique⟩ := accounted entry isEntry
    have more := added entry.1
    unfold Countable projectedLoad
    constructor <;> split <;> omega
  · split at new
    · obtain rfl := List.mem_singleton.mp new
      exact ⟨by show demand.totalRecords ≤ wordMax; omega, by show demand.recordCounts.size ≤ wordMax; omega⟩
    · cases new

theorem projectedWeight_eq_ok (accounted : storage.Accounted)
    (isDemand : tryFold GroupDemand.add ⟨∅, 0, 0⟩ units = .ok demand)
    (isFits : storage.activeFits demand clock = .ok fits) {weight : Nat} :
    storage.projectedWeight units clock = .ok weight ↔
      weight = storage.weightOf demand (storage.targetOf fits) ∧ weight ≤ wordMax := by
  simp only [projectedWeight, isDemand, isFits, ok_bind, bind_eq_ok, orError_eq_ok,
    checkedAdd_eq_some, projectedActual_eq_ok, projectedHeadroom_eq_ok (demand_of isDemand).counted]
  constructor
  · rintro ⟨_, ⟨rfl, -⟩, _, ⟨rfl, -⟩, rfl, short⟩
    exact ⟨rfl, short⟩
  · rintro ⟨rfl, short⟩
    have countable := countable_of_weight accounted (demand_of isDemand).measured short
    unfold weightOf at short
    exact ⟨_, ⟨rfl, by unfold filesAfter at short; omega⟩, _, ⟨rfl, by omega, countable⟩, rfl, short⟩

/-- The current reserve is computed where a projected one is. -/
theorem maintenanceHeadroomBytes_of_weight (accounted : storage.Accounted)
    (short : storage.weight ≤ wordMax) :
    storage.maintenanceHeadroomBytes = .ok (reserveOf storage.config storage.streams.size
      storage.loads storage.reservedFooter) := by
  unfold weight at short
  refine maintenanceHeadroomBytes_eq_ok.mpr ⟨rfl, by omega, fun load member => ?_⟩
  rw [loads_eq, loadsOf] at member
  obtain ⟨entry, isEntry, rfl⟩ := List.mem_map.mp member
  obtain ⟨held, unique⟩ := accounted entry isEntry
  exact ⟨by show entry.2.records.length ≤ wordMax; omega,
    by show entry.2.uniqueStreams ≤ wordMax; omega⟩

section

variable {totalBytes : Nat} {whenFull : FullPolicy} {answer : CapacityCheck}

theorem refuseAppend_eq_ok (accounted : storage.Accounted) (short : storage.weight ≤ wordMax)
    {projected : Nat} :
    storage.refuseAppend demand totalBytes projected = .ok answer ↔
      storage.minimumWeight demand ≤ wordMax ∧
        answer = if totalBytes < storage.minimumWeight demand then
          .exceeds (storage.minimumWeight demand) totalBytes
        else .wait (projected - storage.weight) (totalBytes - storage.weight) := by
  have current : checkedAdd storage.actualFileBytes (reserveOf storage.config storage.streams.size
      storage.loads storage.reservedFooter) = some storage.weight :=
    checkedAdd_eq_some.mpr ⟨rfl, short⟩
  simp only [refuseAppend, maintenanceHeadroomBytes_of_weight accounted short, ok_bind, current,
    orError, bind_eq_ok, minimumRootWeightAfterAppend_eq_ok]
  constructor
  · rintro ⟨_, ⟨rfl, fits⟩, answered⟩
    refine ⟨fits, ?_⟩
    split at answered
    · rename_i heavy
      exact (pure_eq_ok.mp answered).symm.trans (if_pos heavy).symm
    · rename_i light
      exact (pure_eq_ok.mp answered).symm.trans (if_neg light).symm
  · rintro ⟨fits, rfl⟩
    exact ⟨_, ⟨rfl, fits⟩, by split <;> rfl⟩

/-- What an answered check has counted. -/
theorem counts_of_answered (bounded : storage.config.capacity = .bounded totalBytes whenFull)
    (answered : storage.checkAppendCapacity units clock = .ok answer) :
    ∃ demand fits, tryFold GroupDemand.add ⟨∅, 0, 0⟩ units = .ok demand ∧
      storage.activeFits demand clock = .ok fits := by
  simp only [checkAppendCapacity, bounded, bind_eq_ok] at answered
  obtain ⟨demand, isDemand, fits, isFits, -⟩ := answered
  exact ⟨demand, fits, isDemand, isFits⟩

variable (bounded : storage.config.capacity = .bounded totalBytes whenFull)
  (accounted : storage.Accounted)
  (isDemand : tryFold GroupDemand.add ⟨∅, 0, 0⟩ units = .ok demand)
  (isFits : storage.activeFits demand clock = .ok fits)

include bounded accounted isDemand isFits

/-- **The check answers exactly if nothing overflows**, and then by the weights. -/
theorem checkAppendCapacity_eq_ok :
    storage.checkAppendCapacity units clock = .ok answer ↔
      storage.Computes totalBytes demand (storage.targetOf fits) ∧
        answer = storage.verdict totalBytes demand (storage.targetOf fits) := by
  have less := storage.weight_le_weightOf (storage.targetOf fits) demand
  simp only [checkAppendCapacity_eq_ok_iff bounded, isDemand, Except.ok.injEq, verdict,
    projectedWeight_eq_ok accounted isDemand isFits]
  constructor
  · rintro ⟨_, _, rfl, ⟨rfl, short⟩, answered⟩
    split at answered
    · rename_i within
      exact ⟨⟨short, fun heavy => absurd within (Nat.not_le.mpr heavy)⟩,
        by rw [if_pos within]; exact (pure_eq_ok.mp answered).symm⟩
    · rename_i heavy
      obtain ⟨fits, rfl⟩ := (refuseAppend_eq_ok accounted (less.trans short)).mp answered
      exact ⟨⟨short, fun _ => fits⟩, by rw [if_neg heavy]⟩
  · rintro ⟨⟨short, minimum⟩, rfl⟩
    refine ⟨_, _, rfl, ⟨rfl, short⟩, ?_⟩
    split
    · rfl
    · rename_i heavy
      exact (refuseAppend_eq_ok accounted (less.trans short)).mpr ⟨minimum (Nat.not_le.mp heavy), rfl⟩

/-- **A group is admitted exactly if the weight of the root after it is within the capacity.** -/
theorem admitted_iff :
    storage.checkAppendCapacity units clock = .ok .admitted ↔
      storage.weightOf demand (storage.targetOf fits) ≤ wordMax ∧
        storage.weightOf demand (storage.targetOf fits) ≤ totalBytes := by
  rw [checkAppendCapacity_eq_ok bounded accounted isDemand isFits, verdict]
  constructor
  · rintro ⟨computes, isAdmitted⟩
    split at isAdmitted
    · rename_i within
      exact ⟨computes.weight, within⟩
    · split at isAdmitted <;> cases isAdmitted
  · rintro ⟨short, within⟩
    exact ⟨⟨short, fun heavy => absurd within (Nat.not_le.mpr heavy)⟩, (if_pos within).symm⟩

theorem answers_iff :
    (∃ answer, storage.checkAppendCapacity units clock = .ok answer) ↔
      storage.Computes totalBytes demand (storage.targetOf fits) := by
  simp [checkAppendCapacity_eq_ok bounded accounted isDemand isFits]

end

end

end Storage

theorem accounted_reached [Hasher] {world : World} (reached : Reached world) :
    world.storage.Accounted :=
  Storage.accounted_of_balanced (sound_reached reached) (balanced_reached reached)

end Camus
