/-
**Admission predicts the weight of the root after the append.**

`checkAppendCapacity` projects the files and the reserve of a root after a group of appends, by
formulas of its own. They agree with what the append leaves:

* `demand_facts` — the records, bytes and streams that the check counts are those of the epochs.
* `projectedHeadroom_eq_ok` — the projected reserve is the formula of the reserve, on the projected
  loads of the segments.
* `projected_extended`, `projected_created` — the loads after the append are the projected ones.
* `projected_weight_exact` — files and reserve after the append weigh what was projected.
-/

import Camus.Storage.Reserve

set_option linter.unusedSectionVars false

namespace Camus

open Codec Checked Disk FaultIo Result Std

variable {clock : Clock} {prepared : List PreparedEpoch} {records : List Record}
  {start total active : Nat} {reserve next : Nat × Nat} {indexed : Storage}

/-! ### The demand of a group -/

/-- The bytes of the epoch of a unit. -/
def AppendUnit.bytes (unit : AppendUnit) : Nat :=
  epochHeaderLen + epochCommitLen + recordsLength unit.records

/-- The bytes of the epochs of a group. -/
def groupLength (units : List AppendUnit) : Nat := (units.map AppendUnit.bytes).sum

/-- The records of a group. -/
def groupRecords (units : List AppendUnit) : Nat := (units.map fun unit => unit.records.length).sum

theorem addRecordBytes_eq_ok (bounded : start ≤ wordMax) :
    tryFold addRecordBytes start records = .ok total ↔
      start + recordsLength records ≤ wordMax ∧ total = start + recordsLength records := by
  induction records generalizing start with
  | nil => simp [bounded, eq_comm]
  | cons record rest ih =>
    rw [tryFold_cons, bind_eq_ok, recordsLength_cons, Record.length, ← Nat.add_assoc]
    simp only [addRecordBytes, bind_eq_ok, orError_eq_ok, toWord_eq_some,
      Option.bind_eq_bind, Option.bind_eq_some_iff, checkedAdd_eq_some]
    constructor
    · rintro ⟨_, ⟨_, ⟨rfl, -⟩, _, ⟨rfl, -⟩, _, ⟨rfl, -⟩, _, ⟨rfl, -⟩, rfl, fits⟩, others⟩
      simpa only [Nat.add_assoc] using (ih fits).mp others
    · rintro ⟨short, rfl⟩
      have fits : start + (recordDescriptorLen + record.metadata.length + record.payload.length) ≤
          wordMax := by omega
      exact ⟨_, ⟨_, ⟨rfl, by omega⟩, _, ⟨rfl, by omega⟩, _, ⟨rfl, by omega⟩, _, ⟨rfl, by omega⟩,
        by omega, fits⟩, (ih fits).mpr ⟨short, rfl⟩⟩

/-- **The size of an admitted epoch** is the checked sum of its parts. -/
theorem encodedEpochBytes_eq_ok {bytes : Nat} :
    encodedEpochBytes records = .ok bytes ↔ records ≠ [] ∧ bytes ≤ wordMax ∧
      bytes = epochHeaderLen + epochCommitLen + recordsLength records := by
  have bounded : epochHeaderLen + epochCommitLen ≤ wordMax := by decide
  simp only [encodedEpochBytes, bind_eq_ok, ensure_eq_ok, decide_eq_true_eq,
    addRecordBytes_eq_ok bounded]
  constructor
  · rintro ⟨_, nonempty, short, rfl⟩
    exact ⟨nonempty, short, rfl⟩
  · rintro ⟨nonempty, short, rfl⟩
    exact ⟨(), nonempty, short, rfl⟩

/-- **The size of a prepared epoch** is the size it was admitted with. -/
theorem encodedEpochBytes_of_new [Hasher] {streamId : StreamId} {firstSequence : Nat}
    {prepared : PreparedEpoch} (isNew : PreparedEpoch.new streamId firstSequence records = .ok prepared) :
    encodedEpochBytes records = .ok prepared.encodedBytes := by
  obtain ⟨valid, rfl⟩ := PreparedEpoch.new_eq_ok.mp isNew
  exact encodedEpochBytes_eq_ok.mpr ⟨valid.nonempty, valid.sized, Nat.add_right_comm _ _ _⟩

/-- **What the check counts**: bytes, records and the streams. -/
theorem demand_facts {units : List AppendUnit} {start demand : GroupDemand}
    (folded : tryFold GroupDemand.add start units = .ok demand) :
    demand.groupBytes = start.groupBytes + groupLength units ∧
      demand.totalRecords = start.totalRecords + groupRecords units ∧
      (start.totalRecords ≤ wordMax → demand.totalRecords ≤ wordMax) ∧
      ∀ streamId, streamId ∈ demand.recordCounts ↔
        streamId ∈ start.recordCounts ∨ streamId ∈ units.map (·.streamId) := by
  induction units generalizing start with
  | nil =>
    cases folded
    simp [groupLength, groupRecords]
  | cons unit rest ih =>
    rw [tryFold_cons, bind_eq_ok] at folded
    obtain ⟨next, first, others⟩ := folded
    simp only [GroupDemand.add, bind_eq_ok, orError_eq_ok, toWord_eq_some,
      checkedAdd_eq_some, pure_eq_ok] at first
    obtain ⟨_, ⟨rfl, -⟩, _, ⟨rfl, counted⟩, _, ⟨rfl, -⟩, bytes, encoded, _, ⟨rfl, -⟩, rfl⟩ := first
    obtain ⟨-, -, rfl⟩ := encodedEpochBytes_eq_ok.mp encoded
    obtain ⟨length, records, bounded, streams⟩ := ih others
    refine ⟨?_, ?_, fun _ => bounded counted, fun streamId => ?_⟩
    · rw [length]
      simp only [groupLength, List.map_cons, List.sum_cons, AppendUnit.bytes]
      omega
    · rw [records]
      simp only [groupRecords, List.map_cons, List.sum_cons]
      omega
    · rw [streams, ExtTreeMap.mem_insert, LawfulEqOrd.compare_eq_iff_eq, List.map_cons,
        List.mem_cons, @eq_comm _ streamId]
      tauto

/-- The demand of a whole group. -/
structure GroupDemand.Of (demand : GroupDemand) (units : List AppendUnit) : Prop where
  bytes : demand.groupBytes = groupLength units
  records : demand.totalRecords = groupRecords units
  counted : demand.totalRecords ≤ wordMax
  streams : ∀ streamId, streamId ∈ demand.recordCounts ↔ streamId ∈ units.map (·.streamId)

theorem demand_of {units : List AppendUnit} {demand : GroupDemand}
    (folded : tryFold GroupDemand.add ⟨∅, 0, 0⟩ units = .ok demand) : demand.Of units := by
  obtain ⟨bytes, records, bounded, streams⟩ := demand_facts folded
  refine ⟨by simpa using bytes, by simpa using records, bounded (Nat.zero_le _), fun streamId => ?_⟩
  rw [streams]
  simp

section

variable {epochs : List Epoch}

theorem groupLength_epochs : groupLength (epochs.map Epoch.unit) = epochsLength epochs := by
  unfold groupLength epochsLength
  rw [List.map_map]
  refine congrArg List.sum (List.map_congr_left fun epoch _ => ?_)
  simp only [Function.comp_apply, AppendUnit.bytes, Epoch.unit, Epoch.length]
  omega

theorem groupRecords_epochs :
    groupRecords (epochs.map Epoch.unit) = (epochRecords epochs).length := by
  rw [groupRecords, epochRecords, List.length_flatMap, List.map_map]
  rfl

theorem addEpochBytes_total (folded : tryFold addEpochBytes start prepared = .ok total) :
    total = start + (prepared.map (·.encodedBytes)).sum := by
  induction prepared generalizing start with
  | nil =>
    cases folded
    rfl
  | cons epoch rest ih =>
    rw [tryFold_cons, bind_eq_ok] at folded
    obtain ⟨next, first, others⟩ := folded
    obtain ⟨rfl, -⟩ := checkedAdd_eq_some.mp (orError_eq_ok.mp first)
    rw [ih others, List.map_cons, List.sum_cons, Nat.add_assoc]

end

/-! ### The projected reserve -/

theorem entriesOf_append (left right : List (Nat × Nat)) :
    entriesOf (left ++ right) = entriesOf left + entriesOf right := by
  rw [entriesOf, List.map_append, List.sum_append]
  rfl

theorem largestOf_append (left right : List (Nat × Nat)) :
    largestOf (left ++ right) = max (largestOf left) (largestOf right) := by
  induction left with
  | nil => simp
  | cons load rest ih => rw [List.cons_append, largestOf_cons, ih, largestOf_cons, Nat.max_assoc]

/-- The reserve does not depend on the order of the segments. -/
theorem reserveOf_perm {config : Config} {streams footer : Nat} {left right : List (Nat × Nat)}
    (same : left.Perm right) :
    reserveOf config streams left footer = reserveOf config streams right footer := by
  have entries : entriesOf left = entriesOf right := (same.map _).sum_eq
  have largest : largestOf left = largestOf right := by
    refine Nat.le_antisymm (largestOf_le_iff.mpr fun load member => ?_)
      (largestOf_le_iff.mpr fun load member => ?_)
    · exact largestOf_le_iff.mp le_rfl load (same.mem_iff.mp member)
    · exact largestOf_le_iff.mp le_rfl load (same.mem_iff.mpr member)
  rw [reserveOf, reserveOf, entries, largest]

namespace Storage

variable {storage : Storage} {demand : GroupDemand} {target : Option Nat}

/-- The streams of the root after a group of appends. -/
def streamsAfter (storage : Storage) (demand : GroupDemand) : Nat :=
  storage.streams.size + storage.unknownStreams demand

/-- The load of a segment after a group that goes to some target. -/
def projectedLoad (storage : Storage) (demand : GroupDemand) (target : Option Nat)
    (entry : Nat × Segment) : Nat × Nat :=
  (entry.2.records.length + (if target = some entry.1 then demand.totalRecords else 0),
    entry.2.uniqueStreams + (if target = some entry.1 then storage.addedStreams demand entry.1 else 0))

/-- The loads after a group: those of the segments, and of the new one where there is no target. -/
def projectedLoads (storage : Storage) (demand : GroupDemand) (target : Option Nat) :
    List (Nat × Nat) :=
  storage.segments.toList.map (storage.projectedLoad demand target) ++
    if target.isNone then [(demand.totalRecords, demand.recordCounts.size)] else []

theorem projectSegment_eq_ok_iff {entry : Nat × Segment} :
    storage.projectSegment demand target reserve entry = .ok next ↔
      next = (reserve.1 + entryBytes (storage.projectedLoad demand target entry).1,
        max reserve.2 (storage.projectedLoad demand target entry).2) ∧
      next.1 ≤ wordMax ∧ Countable (storage.projectedLoad demand target entry) := by
  simp only [projectSegment, bind_eq_ok, orError_eq_ok, toWord_eq_some,
    checkedAdd_eq_some, addSegmentReserve_eq_some_iff, pure_eq_ok, projectedLoad, Countable,
    Segment.uniqueStreamCount]
  constructor
  · rintro ⟨_, ⟨rfl, -⟩, _, ⟨rfl, records⟩, _, ⟨rfl, fits⟩, _, ⟨rfl, streams⟩, rfl⟩
    exact ⟨rfl, fits, records, streams⟩
  · rintro ⟨rfl, fits, records, streams⟩
    exact ⟨_, ⟨rfl, Nat.le_trans (Nat.le_add_right _ _) records⟩, _, ⟨rfl, records⟩, _, ⟨rfl, fits⟩, _,
      ⟨rfl, streams⟩, rfl⟩

theorem projectCreation_eq_ok {creates : Bool} (short : reserve.1 ≤ wordMax)
    (counted : demand.totalRecords ≤ wordMax) :
    projectCreation demand creates reserve = .ok next ↔
      next = (reserve.1 + entriesOf (if creates then [(demand.totalRecords, demand.recordCounts.size)]
          else []), max reserve.2 (largestOf (if creates then
            [(demand.totalRecords, demand.recordCounts.size)] else []))) ∧
        next.1 ≤ wordMax ∧ ∀ load ∈ (if creates then
          [(demand.totalRecords, demand.recordCounts.size)] else []), Countable load := by
  cases creates with
  | false =>
    simp only [projectCreation, Bool.false_eq_true, if_false, Except.ok.injEq, entriesOf_nil,
      largestOf_nil, Nat.add_zero, Nat.max_zero, List.not_mem_nil, false_implies, implies_true,
      and_true]
    constructor
    · rintro rfl
      exact ⟨rfl, short⟩
    · exact fun same => same.1.symm
  | true =>
    simp only [projectCreation, if_true, bind_eq_ok, orError_eq_ok,
      addSegmentReserve_eq_some_iff, toWord_eq_some, pure_eq_ok, entriesOf_cons, entriesOf_nil,
      largestOf_cons, largestOf_nil, Nat.add_zero, Nat.max_zero, List.mem_singleton, forall_eq,
      Countable]
    constructor
    · rintro ⟨_, ⟨rfl, fits⟩, _, ⟨rfl, streams⟩, rfl⟩
      exact ⟨rfl, fits, counted, streams⟩
    · rintro ⟨rfl, fits, -, streams⟩
      exact ⟨_, ⟨rfl, fits⟩, _, ⟨rfl, streams⟩, rfl⟩

/-- **The projected reserve is the formula on the projected loads.** -/
theorem projectedHeadroom_eq_ok (counted : demand.totalRecords ≤ wordMax) {headroom : Nat} :
    storage.projectedHeadroom demand target target.isNone = .ok headroom ↔
      headroom = reserveOf storage.config (storage.streamsAfter demand)
          (storage.projectedLoads demand target) segmentFooterLen ∧
        headroom ≤ wordMax ∧ ∀ load ∈ storage.projectedLoads demand target, Countable load := by
  have computes := fun final => @tryFold_loads _ (storage.projectSegment demand target)
    (storage.projectedLoad demand target) (fun _ _ _ => projectSegment_eq_ok_iff)
    storage.segments.toList (checkpointBytes (storage.streamsAfter demand), 0) final
  have countable : (∀ load ∈ storage.projectedLoads demand target, Countable load) ↔
      (∀ entry ∈ storage.segments.toList, Countable (storage.projectedLoad demand target entry)) ∧
      ∀ load ∈ (if target.isNone then [(demand.totalRecords, demand.recordCounts.size)] else []),
        Countable load := by
    rw [projectedLoads, List.forall_mem_append, List.forall_mem_map]
  rw [countable, reserveOf, projectedLoads, entriesOf_append, largestOf_append]
  simp only [projectedHeadroom, bind_eq_ok, orError_eq_ok, Option.bind_eq_bind,
    Option.bind_eq_some_iff, checkedAdd_eq_some, checkpointReserve_eq_some_iff,
    largestManifestGroup_eq_ok_iff, Prod.exists]
  constructor
  · rintro ⟨_, ⟨rfl, -⟩, _, ⟨rfl, short⟩, _, _, folded, checkpoint, streams, created, _, ⟨rfl, -⟩, _,
      ⟨rfl, -⟩, rfl, fits⟩
    obtain ⟨same, between, counts⟩ := (computes _ short).mp folded
    obtain ⟨rfl, rfl⟩ := Prod.mk.inj same
    obtain ⟨same, -, countsNew⟩ := (projectCreation_eq_ok between counted).mp created
    obtain ⟨rfl, rfl⟩ := Prod.mk.inj same
    simp only [Nat.zero_max, Nat.add_assoc (checkpointBytes _)] at fits ⊢
    exact ⟨trivial, fits, counts, countsNew⟩
  · rintro ⟨rfl, fits, counts, created⟩
    have size : storage.streams.size + storage.unknownStreams demand ≤
        checkpointBytes (storage.streamsAfter demand) := by
      unfold checkpointBytes streamsAfter
      omega
    have short : checkpointBytes (storage.streamsAfter demand) ≤ wordMax := by omega
    have between : checkpointBytes (storage.streamsAfter demand) +
        entriesOf (storage.segments.toList.map (storage.projectedLoad demand target)) ≤ wordMax := by
      omega
    refine ⟨_, ⟨rfl, by omega⟩, _, ⟨rfl, short⟩, _, _, (computes _ short).mpr ⟨rfl, between, counts⟩, _, _,
      (projectCreation_eq_ok between counted).mpr ⟨rfl, ?_, created⟩, _, ⟨rfl, ?_⟩, _, ⟨rfl, ?_⟩, ?_, fits⟩
    all_goals
      simp only [Nat.zero_max]
      omega

/-! ### The projected weight -/

theorem projectedActual_eq_ok {creates seals : Bool} {actual : Nat} :
    storage.projectedActual demand creates seals = .ok actual ↔
      actual = storage.actualFileBytes + demand.groupBytes + (if creates then segmentHeaderLen else 0) +
        (if seals then segmentFooterLen else 0) + (if seals then 80 else 0) ∧ actual ≤ wordMax := by
  simp only [projectedActual, orError_eq_ok, Option.bind_eq_bind, Option.bind_eq_some_iff,
    checkedAdd_eq_some]
  constructor
  · rintro ⟨_, ⟨rfl, -⟩, _, ⟨rfl, -⟩, _, ⟨rfl, -⟩, rfl, fits⟩
    exact ⟨rfl, fits⟩
  · rintro ⟨rfl, fits⟩
    exact ⟨_, ⟨rfl, by omega⟩, _, ⟨rfl, by omega⟩, _, ⟨rfl, by omega⟩, rfl, fits⟩

/-- The segment that a group goes to, if it is there already. -/
def targetOf (storage : Storage) (fits : Bool) : Option Nat := if fits then storage.activeSegment else none

/-- The weight that an admission check compares with the capacity. -/
def projectedWeight (storage : Storage) (units : List AppendUnit) (clock : Clock) :
    Except Error Nat := do
  let demand ← tryFold GroupDemand.add ⟨∅, 0, 0⟩ units
  let fits ← storage.activeFits demand clock
  let target := storage.targetOf fits
  let actual ← storage.projectedActual demand target.isNone
    (storage.activeSegment.isSome && target.isNone)
  let headroom ← storage.projectedHeadroom demand target target.isNone
  orError (.invalidConfig "append capacity projection overflow") (checkedAdd actual headroom)

/-- What the check answers, from the projected weight. -/
theorem checkAppendCapacity_eq_ok_iff {units : List AppendUnit} {totalBytes : Nat}
    {whenFull : FullPolicy} {answer : CapacityCheck}
    (bounded : storage.config.capacity = .bounded totalBytes whenFull) :
    storage.checkAppendCapacity units clock = .ok answer ↔
      ∃ demand weight, tryFold GroupDemand.add ⟨∅, 0, 0⟩ units = .ok demand ∧
        storage.projectedWeight units clock = .ok weight ∧
        (if weight ≤ totalBytes then pure .admitted
          else storage.refuseAppend demand totalBytes weight) = .ok answer := by
  simp only [checkAppendCapacity, bounded, projectedWeight, bind_eq_ok]
  constructor
  · rintro ⟨demand, isDemand, fits, isFits, actual, isActual, headroom, isHeadroom, weight, isWeight,
      answered⟩
    exact ⟨demand, weight, isDemand,
      ⟨demand, isDemand, fits, isFits, actual, isActual, headroom, isHeadroom, isWeight⟩, answered⟩
  · rintro ⟨demand, weight, isDemand,
      ⟨_, isOther, fits, isFits, actual, isActual, headroom, isHeadroom, isWeight⟩, answered⟩
    cases isDemand.symm.trans isOther
    exact ⟨demand, isDemand, fits, isFits, actual, isActual, headroom, isHeadroom, weight, isWeight,
      answered⟩

end Storage

/-! ### The loads after the append -/

/-- The loads of some segments. -/
def loadsOf (segments : SegmentMap) : List (Nat × Nat) := segments.toList.map fun entry => entry.2.load

theorem Storage.loads_eq (storage : Storage) : storage.loads = loadsOf storage.segments := by
  rw [Storage.loads, loadsOf, Maps.values, List.map_map]
  rfl

section

variable {segments : SegmentMap} {segmentId : Nat} {segment : Segment}

theorem loadsOf_insert (segments : SegmentMap) (segmentId : Nat) (segment : Segment) :
    (loadsOf (segments.insert segmentId segment)).Perm
      (segment.load :: loadsOf (segments.erase segmentId)) :=
  (Maps.toList_insert_perm segments segmentId segment).map _

theorem loadsOf_of_found (found : segments[segmentId]? = some segment) :
    (loadsOf segments).Perm (segment.load :: loadsOf (segments.erase segmentId)) := by
  have inserted := loadsOf_insert segments segmentId segment
  rwa [Maps.insert_of_found found] at inserted

/-- A segment replaced by one of the same load. -/
theorem loadsOf_replace {next : Segment} (found : segments[segmentId]? = some segment)
    (same : next.load = segment.load) :
    (loadsOf (segments.insert segmentId next)).Perm (loadsOf segments) := by
  have inserted := loadsOf_insert segments segmentId next
  rw [same] at inserted
  exact inserted.trans (loadsOf_of_found found).symm

end

section

variable {storage : Storage} {demand : GroupDemand}

theorem projectedLoads_none : storage.projectedLoads demand none =
    loadsOf storage.segments ++ [(demand.totalRecords, demand.recordCounts.size)] := by
  have unchanged : storage.segments.toList.map (storage.projectedLoad demand none) =
      loadsOf storage.segments := by
    refine List.map_congr_left fun entry _ => ?_
    simp [Storage.projectedLoad, Segment.load]
  rw [Storage.projectedLoads, unchanged]
  rfl

theorem projectedLoads_some {segment : Segment} (found : storage.segments[active]? = some segment) :
    (storage.projectedLoads demand (some active)).Perm
      ((segment.records.length + demand.totalRecords,
        segment.uniqueStreams + storage.addedStreams demand active) ::
          loadsOf (storage.segments.erase active)) := by
  have entries := Maps.toList_insert_perm storage.segments active segment
  rw [Maps.insert_of_found found] at entries
  have rest : (storage.segments.erase active).toList.map (storage.projectedLoad demand (some active)) =
      loadsOf (storage.segments.erase active) := by
    refine List.map_congr_left fun entry member => ?_
    have isEntry := ExtTreeMap.mem_toList_iff_getElem?_eq_some.mp member
    have different : ¬active = entry.1 := by
      intro same
      rw [← same] at isEntry
      simp at isEntry
    simp [Storage.projectedLoad, Segment.load, different]
  have mapped := entries.map (storage.projectedLoad demand (some active))
  rw [List.map_cons, rest] at mapped
  simp only [Storage.projectedLoads, Option.isNone_some, Bool.false_eq_true, if_false,
    List.append_nil]
  refine mapped.trans (List.Perm.of_eq ?_)
  simp [Storage.projectedLoad]

/-- The streams that come with a group. -/
theorem size_of_members {streams final : StreamMap} {counts : Highwaters}
    (members : ∀ streamId, streamId ∈ final ↔ streamId ∈ streams ∨ streamId ∈ counts) :
    final.size = streams.size + counts.keys.countP fun streamId => !streams.contains streamId := by
  rw [List.countP_eq_length_filter, ← ExtTreeMap.length_keys, ← ExtTreeMap.length_keys,
    ← List.length_append]
  refine ((List.perm_ext_iff_of_nodup ExtTreeMap.nodup_keys ?_).mpr fun streamId => ?_).length_eq
  · refine List.nodup_append.mpr ⟨ExtTreeMap.nodup_keys, ExtTreeMap.nodup_keys.filter _, ?_⟩
    rintro streamId known other member rfl
    have unknown := (List.mem_filter.mp member).2
    rw [ExtTreeMap.mem_keys, ExtTreeMap.mem_iff_contains] at known
    simp [known] at unknown
  · rw [List.mem_append, List.mem_filter, ExtTreeMap.mem_keys, ExtTreeMap.mem_keys,
      ExtTreeMap.mem_keys, members]
    by_cases known : streamId ∈ streams
    · simp [known]
    · have unknown : streams.contains streamId = false := by
        rw [ExtTreeMap.mem_iff_contains, Bool.not_eq_true] at known
        exact known
      simp [known, unknown]

/-- The check and the append count the same new streams of a segment. -/
theorem newStreams_eq_addedStreams {units : List AppendUnit}
    (streams : ∀ streamId, streamId ∈ demand.recordCounts ↔ streamId ∈ units.map (·.streamId))
    (same : prepared.map (·.streamId) = units.map (·.streamId)) (active : Nat) :
    storage.newStreams active prepared = storage.addedStreams demand active := by
  unfold Storage.newStreams Storage.addedStreams
  refine List.Perm.countP_eq _ ((List.perm_ext_iff_of_nodup ?_ ExtTreeMap.nodup_keys).mpr
    fun streamId => ?_)
  · exact ExtTreeSet.distinct_toList.imp fun different equal => different (by simp [equal])
  · rw [ExtTreeSet.mem_toList, ExtTreeSet.mem_ofList, List.contains_iff_mem, same,
      ExtTreeMap.mem_keys, streams]

theorem dedup_length_eq_size {units : List AppendUnit} {ids : List StreamId}
    (streams : ∀ streamId, streamId ∈ demand.recordCounts ↔ streamId ∈ units.map (·.streamId))
    (same : ∀ streamId, streamId ∈ ids ↔ streamId ∈ units.map (·.streamId)) :
    ids.dedup.length = demand.recordCounts.size := by
  rw [← ExtTreeMap.length_keys]
  refine ((List.perm_ext_iff_of_nodup (List.nodup_dedup _) ExtTreeMap.nodup_keys).mpr
    fun streamId => ?_).length_eq
  rw [List.mem_dedup, same, ExtTreeMap.mem_keys, streams]

end

/-! ### Sealing and writing -/

section

variable [Hasher] {world rolled final : World} {demand : GroupDemand} {epochs : List Epoch}
  {ids : List (List RecordId)}

/-- The manifest log grows by the lengths of the frames. -/
theorem length_appendGroup {manifest next : Manifest} {bodies : List ManifestBody}
    {outcome : DurabilityOutcome} {fs left : Fs}
    (returned : Returns (manifest.appendGroup bodies outcome) fs next left) :
    next.checkpointLen = manifest.checkpointLen ∧
      next.logLen = manifest.logLen + (bodies.map ManifestBody.frameLen).sum := by
  obtain ⟨rfl, rfl, -⟩ | ⟨frames, last, -, -, encoded, -, rfl, -⟩ :=
    Manifest.returns_appendGroup returned
  · simp
  · exact ⟨rfl, by rw [encodeFrames_flatten_length encoded]⟩

/-- What a seal leaves: the same streams and loads, and a footer and a frame more. -/
structure SealedFrom (world rolled : World) : Prop where
  config : rolled.storage.config = world.storage.config
  inactive : rolled.storage.activeSegment = none
  streams : rolled.storage.streams = world.storage.streams
  loads : (loadsOf rolled.storage.segments).Perm (loadsOf world.storage.segments)
  actual : rolled.storage.actualFileBytes = world.storage.actualFileBytes + segmentFooterLen + 80

theorem sealedFrom_sealSegment {reason : SealReason} (sound : world.storage.indexView.Sound)
    (isActive : world.storage.activeSegment = some active)
    (returned : Returns (sealSegment active reason) world () rolled) : SealedFrom world rolled := by
  obtain ⟨segment, sealed, footer, manifest, bytes, first, last, found, seals, fits, appended,
    rebooked, rfl⟩ := returns_sealSegment returned
  obtain ⟨other, isOther, noFooter⟩ := sound.isOpen active isActive
  have isOther : world.storage.segments[active]? = some other := isOther
  cases found.symm.trans isOther
  obtain ⟨shape, lengths⟩ := returns_sealData seals
  obtain ⟨-, footerLen⟩ := lengths noFooter
  obtain ⟨checkpointLen, logLen⟩ := length_appendGroup appended
  have frame : ([.segmentSealed { footer.sealedBody with segmentId := active }].map
    ManifestBody.frameLen).sum = 80 := rfl
  have new := rebooked.new
  have old := rebooked.old
  simp only at new old
  refine ⟨rfl, rfl, rfl, loadsOf_replace found (by rw [shape]; rfl), ?_⟩
  show bytes = _
  omega

/-- Where a group goes: to the active segment if it fits, else to a new one, after a seal if there is
an active one. -/
theorem rollOver_of_fits {fits : Bool} {groupBytes : Nat} (length : demand.groupBytes = groupBytes)
    (answers : world.storage.activeFits demand clock = .ok fits)
    (rolls : Returns (rollOver groupBytes clock) world () rolled) :
    (∃ active, world.storage.activeSegment = some active ∧ fits = true ∧ rolled = world) ∨
    (world.storage.activeSegment = none ∧ fits = false ∧ rolled = world) ∨
    ∃ active reason, world.storage.activeSegment = some active ∧ fits = false ∧
      Returns (sealSegment active reason) world () rolled := by
  have rolls := Returns.bind_getStorage rolls
  unfold Storage.activeFits at answers
  cases isActive : world.storage.activeSegment with
  | none =>
    rw [isActive] at answers rolls
    cases answers
    exact .inr (.inl ⟨rfl, rfl, (Returns.result rolls).2⟩)
  | some active =>
    rw [isActive] at answers rolls
    obtain ⟨expired, isExpired, rolls⟩ := rolls.bind_ofExcept
    have seals : ∀ reason, Returns (sealActive reason) world () rolled →
        Returns (sealSegment active reason) world () rolled := by
      intro reason returned
      rcases returns_sealActive returned with ⟨noActive, -⟩ | ⟨other, isOther, seals⟩
      · cases isActive.symm.trans noActive
      · cases isActive.symm.trans isOther
        exact seals
    simp only [isExpired, ok_bind] at answers
    cases expired with
    | true =>
      cases answers
      exact .inr (.inr ⟨active, .age, rfl, rfl, seals _ rolls⟩)
    | false =>
      obtain ⟨room, isRoom, rolls⟩ := rolls.bind_ofExcept
      simp only [Bool.false_eq_true, if_false, isRoom, ok_bind, pure_eq_ok] at answers
      subst answers
      split at rolls
      · rename_i short
        exact .inr (.inr ⟨active, .size, rfl, decide_eq_false (by omega), seals _ rolls⟩)
      · rename_i enough
        exact .inl ⟨active, rfl, decide_eq_true (by omega), (Returns.result rolls).2⟩

/-- What an append leaves, as the check projects it. -/
structure Projected (storage : Storage) (demand : GroupDemand) (target : Option Nat) (final : Storage) :
    Prop where
  config : final.config = storage.config
  active : final.activeSegment.isSome = true
  streams : final.streams.size = storage.streamsAfter demand
  loads : (loadsOf final.segments).Perm (storage.projectedLoads demand target)
  actual : final.actualFileBytes = storage.actualFileBytes + demand.groupBytes +
    (if target.isNone then segmentHeaderLen else 0) +
    (if storage.activeSegment.isSome && target.isNone then segmentFooterLen else 0) +
    if storage.activeSegment.isSome && target.isNone then 80 else 0

/-- **A projected state has the projected reserve.** -/
theorem Projected.headroom {storage final : Storage} {target : Option Nat} {headroom : Nat}
    (projected : Projected storage demand target final) (counted : demand.totalRecords ≤ wordMax)
    (computed : storage.projectedHeadroom demand target target.isNone = .ok headroom) :
    final.maintenanceHeadroomBytes = .ok headroom := by
  obtain ⟨rfl, bounded, countable⟩ := (Storage.projectedHeadroom_eq_ok counted).mp computed
  have loads : final.loads.Perm (storage.projectedLoads demand target) := by
    rw [Storage.loads_eq]
    exact projected.loads
  have footer : final.reservedFooter = segmentFooterLen := if_pos projected.active
  refine Storage.maintenanceHeadroomBytes_eq_ok.mpr ⟨?_, bounded, fun load member => ?_⟩
  · rw [projected.config, projected.streams, footer, reserveOf_perm loads]
  · exact countable load (loads.mem_iff.mp member)

/-- A seal before the group is part of the projection. -/
theorem SealedFrom.projected (sealed : SealedFrom world rolled)
    (isActive : world.storage.activeSegment = some active)
    (projected : Projected rolled.storage demand none final.storage) :
    Projected world.storage demand none final.storage where
  config := projected.config.trans sealed.config
  active := projected.active
  streams := by
    rw [projected.streams, Storage.streamsAfter, Storage.streamsAfter, Storage.unknownStreams,
      Storage.unknownStreams, sealed.streams]
  loads := by
    have loads := projected.loads
    rw [projectedLoads_none] at loads ⊢
    exact loads.trans (sealed.loads.append_right _)
  actual := by
    have actual := projected.actual
    rw [sealed.inactive, sealed.actual] at actual
    rw [isActive, actual]
    simp only [Option.isNone_none, Option.isSome_some, Option.isSome_none, Bool.false_and,
      Bool.true_and, Bool.false_eq_true, if_true, if_false]
    omega

/-- A group went to the active segment. -/
theorem projected_extended {segment appended : Segment} (valid : ∀ epoch ∈ epochs, epoch.Valid)
    (isDemand : demand.Of (epochs.map Epoch.unit))
    (isActive : world.storage.activeSegment = some active)
    (extended : Extended world final active (epochs.map Epoch.prepared) segment appended ids indexed)
    : Projected world.storage demand (some active) final.storage := by
  obtain ⟨-, shape, -⟩ := returns_segmentAppend valid extended.appends
  have found : world.storage.segments[active]? = some segment := extended.found
  have inserted : (world.storage.segments.insert active appended)[active]? = some appended :=
    ExtTreeMap.getElem?_insert_self
  have records : appended.records = segment.records ++ storedEpochs segment.fileLen epochs := by
    rw [shape]
  have members := (restands_indexDurableRecords inserted extended.indexes).known
  have frame := indexDurableRecords_frame extended.indexes
  have sameStreams : (epochs.map Epoch.prepared).map (·.streamId) =
      (epochs.map Epoch.unit).map (·.streamId) := by
    rw [List.map_map, List.map_map]
    rfl
  have load : appended.load = (segment.records.length + demand.totalRecords,
      segment.uniqueStreams + world.storage.addedStreams demand active) := by
    have unique : appended.uniqueStreams = segment.uniqueStreams +
      world.storage.newStreams active (epochs.map Epoch.prepared) := by rw [shape]
    rw [Segment.load, records, unique, newStreams_eq_addedStreams isDemand.streams sameStreams,
      List.length_append, storedEpochs_length, isDemand.records, groupRecords_epochs]
  have length : appended.fileLen = segment.fileLen + demand.groupBytes := by
    rw [isDemand.bytes, groupLength_epochs, shape]
  have fits := extended.fits
  rw [frame] at fits
  have fits : segment.fileLen ≤ world.storage.actualFileBytes := fits
  rw [extended.left, frame]
  refine ⟨rfl, ?_, ?_, ?_, ?_⟩
  · show world.storage.activeSegment.isSome = true
    rw [isActive]
    rfl
  · refine size_of_members fun streamId => ?_
    rw [members, records, List.drop_left, mem_streamIds_storedEpochs_iff valid, sameStreams,
      isDemand.streams]
  · show (loadsOf (world.storage.segments.insert active appended)).Perm _
    refine (loadsOf_insert _ _ _).trans ?_
    rw [load]
    exact (projectedLoads_some found).symm
  · show world.storage.actualFileBytes - segment.fileLen + appended.fileLen = _
    simp only [Option.isNone_some, Bool.and_false, Bool.false_eq_true, if_false]
    omega

/-- A group went to a new segment. -/
theorem projected_created {segment : Segment} (sound : world.storage.indexView.Sound)
    (valid : ∀ epoch ∈ epochs, epoch.Valid) (isDemand : demand.Of (epochs.map Epoch.unit))
    (noActive : world.storage.activeSegment = none)
    (created : Created world final (epochs.map Epoch.prepared) segment ids indexed) :
    Projected world.storage demand none final.storage := by
  obtain ⟨createdAt, creates⟩ := created.creates
  obtain ⟨⟨-, fileLen, records, -, unique⟩, -⟩ := returns_segmentCreate valid creates
  have inserted : (world.storage.segments.insert world.storage.nextSegmentId
      segment)[world.storage.nextSegmentId]? = some segment := ExtTreeMap.getElem?_insert_self
  have members := (restands_indexDurableRecords inserted created.indexes).known
  have frame := indexDurableRecords_frame created.indexes
  have sameStreams : (epochs.map Epoch.prepared).map (·.streamId) =
      (epochs.map Epoch.unit).map (·.streamId) := by
    rw [List.map_map, List.map_map]
    rfl
  have load : segment.load = (demand.totalRecords, demand.recordCounts.size) := by
    rw [records, dedup_length_eq_size isDemand.streams fun streamId => by
      rw [mem_streamIds_storedEpochs_iff valid, sameStreams]] at unique
    rw [Segment.load, unique, records, storedEpochs_length, isDemand.records, groupRecords_epochs]
  have absent : world.storage.segments[world.storage.nextSegmentId]? = none := by
    cases found : world.storage.segments[world.storage.nextSegmentId]? with
    | none => rfl
    | some other => exact absurd (sound.identity_of_found found) (Nat.lt_irrefl _)
  rw [created.left, frame]
  refine ⟨rfl, rfl, ?_, ?_, ?_⟩
  · refine size_of_members fun streamId => ?_
    rw [members, records, List.drop_zero, mem_streamIds_storedEpochs_iff valid, sameStreams,
      isDemand.streams]
  · show (loadsOf (world.storage.segments.insert world.storage.nextSegmentId segment)).Perm _
    refine (loadsOf_insert _ _ _).trans ?_
    rw [projectedLoads_none, Maps.erase_of_absent absent, load]
    exact (List.perm_append_singleton _ _).symm
  · show world.storage.actualFileBytes + segment.fileLen = _
    rw [fileLen, isDemand.bytes, groupLength_epochs, noActive]
    simp only [Option.isNone_none, Option.isSome_none, Bool.false_and, Bool.false_eq_true, if_true,
      if_false]
    omega

/-- **Capacity admission predicts the exact state after the append.** In every reachable state and for
every group of appends: if the check computes a projected weight and the append succeeds, then the
reserve of the root after it is defined, and its files and its reserve have together the projected
weight. The group may go to the active segment, to a first one, or to a new one after a seal. An
admitted group leaves the root within its capacity. -/
theorem projected_weight_exact (reached : Reached world) {units : List AppendUnit}
    {clock creation : Clock} {weight : Nat} (nonempty : units ≠ [])
    (projected : world.storage.projectedWeight units clock = .ok weight)
    (returned : Returns (appendGroup units clock creation) world ids final) :
    (∃ headroom, final.storage.maintenanceHeadroomBytes = .ok headroom ∧
      final.storage.actualFileBytes + headroom = weight) ∧
    ∀ totalBytes whenFull, world.storage.config.capacity = .bounded totalBytes whenFull →
      world.storage.checkAppendCapacity units clock = .ok .admitted → weight ≤ totalBytes := by
  have sound := sound_reached reached
  constructor
  · simp only [Storage.projectedWeight, bind_eq_ok, orError_eq_ok, checkedAdd_eq_some]
      at projected
    obtain ⟨demand, folded, fits, isFits, actual, isActual, headroom, isHeadroom, rfl, -⟩ := projected
    obtain ⟨prepared, groupBytes, rolled, written, commits, appends, rfl⟩ :=
      appends_appendGroup nonempty returned
    obtain ⟨epochs, rfl, valid, rfl, -⟩ := prepareUnits_eq_ok appends.encodes
    have isDemand := demand_of folded
    have length : demand.groupBytes = groupBytes := by
      rw [isDemand.bytes, groupLength_epochs, addEpochBytes_total appends.counts, List.map_map,
        Nat.zero_add]
      rfl
    obtain ⟨rfl, -⟩ := Storage.projectedActual_eq_ok.mp isActual
    have left : Projected world.storage demand (world.storage.targetOf fits) written.storage := by
      rcases rollOver_of_fits length isFits appends.rolls with ⟨active, isActive, rfl, rfl⟩ |
        ⟨noActive, rfl, rfl⟩ | ⟨active, reason, isActive, rfl, seals⟩
      · rw [show rolled.storage.targetOf true = some active from isActive]
        rcases returns_writeGroup appends.writes with ⟨other, segment, appended, indexed, isOther,
          extended⟩ | ⟨_, _, noActive, -⟩
        · cases isActive.symm.trans isOther
          exact projected_extended valid isDemand isActive extended
        · cases isActive.symm.trans noActive
      · rcases returns_writeGroup appends.writes with ⟨_, _, _, _, isActive, -⟩ |
          ⟨segment, indexed, -, created⟩
        · cases noActive.symm.trans isActive
        · exact projected_created sound valid isDemand noActive created
      · have sealed := sealedFrom_sealSegment sound isActive seals
        rcases returns_writeGroup appends.writes with ⟨_, _, _, _, stillActive, -⟩ |
          ⟨segment, indexed, noActive, created⟩
        · cases sealed.inactive.symm.trans stillActive
        · exact sealed.projected isActive (projected_created (sound_sealSegment sound isActive seals)
            valid isDemand noActive created)
    exact ⟨headroom, left.headroom isDemand.counted isHeadroom, by rw [← left.actual]⟩
  · intro totalBytes whenFull bounded admitted
    obtain ⟨_, other, -, isOther, answered⟩ :=
      (Storage.checkAppendCapacity_eq_ok_iff bounded).mp admitted
    cases projected.symm.trans isOther
    split at answered
    · assumption
    · simp only [Storage.refuseAppend, bind_eq_ok] at answered
      obtain ⟨_, -, _, -, _, -, answered⟩ := answered
      split at answered <;> cases answered

end

/-- An append that seals the active segment and creates another. -/
theorem projected_weight_exact_sample : ∃ (before after : World) (weight headroom : Nat),
    before.storage.activeSegment = some 0 ∧ after.storage.activeSegment = some 1 ∧
      before.storage.projectedWeight [Sample.unit 2] (.millis 5) = .ok weight ∧
      after.storage.maintenanceHeadroomBytes = .ok headroom ∧
      after.storage.actualFileBytes + headroom = weight := by
  have evaluated : (Sample.extend .sample [Sample.append [Sample.unit 1]]
      [Sample.append [Sample.unit 2]]).any (fun (before, after) =>
        decide (before.storage.activeSegment = some 0 ∧ after.storage.activeSegment = some 1) &&
          (before.storage.projectedWeight [Sample.unit 2] (.millis 5)).toOption.isSome) = true := by
    decide +kernel
  obtain ⟨⟨before, after⟩, found, checked⟩ := exists_of_any evaluated
  simp only [Bool.and_eq_true, decide_eq_true_eq] at checked
  obtain ⟨⟨first, second⟩, isSome⟩ := checked
  obtain ⟨weight, isWeight⟩ := Option.isSome_iff_exists.mp isSome
  obtain ⟨reached, runs⟩ := Sample.runs_of_extend found
  obtain ⟨ids, appends⟩ := @Runs.returns Hasher.fnv _ _ _ runs
  have projected := toOption_eq_some.mp isWeight
  obtain ⟨⟨headroom, computed, equal⟩, -⟩ := @projected_weight_exact Hasher.fnv before after ids
    reached [Sample.unit 2] (.millis 5) (.millis 5) weight (by decide) projected appends
  exact ⟨before, after, weight, headroom, first, second, projected, computed, equal⟩

end Camus
