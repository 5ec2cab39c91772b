/-
**What opening a root finds.**

`Storage.open` accepts a filesystem only if the index it builds is sound, whatever the files hold:

* `indexes_rebuildIndexes` — the rebuilt streams index every place of the segments.
* `sound_assembleStorage`, `returns_recoverSegments` — the counters are exact and the one segment
  without a footer is the active one and the last.
* `sound_open` — the state of an open root is sound.
* `Reached`, `sound_reached` — and so is every state that operations reach from it, because every
  operation is a chain of elementary changes (`moves_operation`).
-/

import Camus.Storage.LogRead
import Camus.Storage.Moves

namespace Camus

open Codec Checked Disk FaultIo Result Std

variable {config : Config} {control : Control} {recovery : ControlRecovery} {done : List Nat}
  {listing : Listing} {segmentId : Nat} {named : Nat → Nat → Prop}
  {expected : Option ControlSegment} {active : Option Nat} {rootId : RootId}
  {next : ScannedSegments} {segments final refreshed : SegmentMap} {storage : Storage}
  {streams : StreamMap} {world : World}

/-! ### Segments up to the flags of their records -/

/-- A record without its flag. -/
def StoredRecord.bare (record : StoredRecord) : StoredRecord := { record with released := false }

/-- A segment without the flags of its records. -/
def Segment.bare (segment : Segment) : Segment :=
  { segment with records := segment.records.map StoredRecord.bare, unreleasedRecords := 0 }

/-- The same segments with other flags. -/
def SameSegments (segments final : SegmentMap) : Prop :=
  ∀ segmentId : Nat, final[segmentId]?.map Segment.bare = segments[segmentId]?.map Segment.bare

theorem SameSegments.trans {middle : SegmentMap} (first : SameSegments segments middle)
    (second : SameSegments middle final) : SameSegments segments final :=
  fun segmentId => (second segmentId).trans (first segmentId)

theorem SameSegments.found (same : SameSegments segments final) {segment : Segment}
    (isFound : final[segmentId]? = some segment) :
    ∃ original, segments[segmentId]? = some original ∧ segment.bare = original.bare := by
  have mapped := same segmentId
  rw [isFound] at mapped
  obtain ⟨original, isOriginal, equal⟩ := Option.map_eq_some_iff.mp mapped.symm
  exact ⟨original, isOriginal, equal.symm⟩

theorem SameSegments.mem_iff (same : SameSegments segments final) (segmentId : Nat) :
    segmentId ∈ final ↔ segmentId ∈ segments := by
  have mapped := congrArg Option.isSome (same segmentId)
  rw [Option.isSome_map, Option.isSome_map] at mapped
  rw [ExtTreeMap.mem_iff_isSome_getElem?, ExtTreeMap.mem_iff_isSome_getElem?, mapped]

/-- A fold that converts every segment keeps what the conversion keeps. -/
theorem sameSegments_of_tryFold (convert : Nat → Segment → Except Error Segment)
    (keeps : ∀ segmentId segment converted, convert segmentId segment = .ok converted →
      converted.bare = segment.bare)
    (folded : tryFold (fun (found : SegmentMap) (entry : Nat × Segment) => do
      let segment ← convert entry.1 entry.2
      return found.insert entry.1 segment) segments segments.toList = .ok final) :
    SameSegments segments final := by
  intro segmentId
  have entry := Maps.tryFold_insert_toList folded segmentId
  cases found : segments[segmentId]? with
  | none =>
    rw [found] at entry
    rw [entry]
  | some segment =>
    rw [found] at entry
    obtain ⟨converted, isConverted, isFinal⟩ := entry
    rw [isFinal]
    exact congrArg some (keeps segmentId segment converted isConverted)

theorem setFlags_bare (records : List StoredRecord) (flags : List Bool) :
    (setFlags records flags).map StoredRecord.bare = records.map StoredRecord.bare := by
  induction records generalizing flags with
  | nil => simp [setFlags]
  | cons record rest ih =>
    cases flags with
    | nil => simp [setFlags]
    | cons flag others =>
      have tail := ih others
      simp only [setFlags, List.zip_cons_cons, List.map_cons, List.length_cons, List.drop_succ_cons,
        List.cons_append] at tail ⊢
      rw [tail]
      rfl

theorem applyBaseline_bare {controlSegment : Option ControlSegment} {segment applied : Segment}
    (isApplied : applyBaseline controlSegment segment = .ok applied) :
    applied.bare = segment.bare := by
  simp only [applyBaseline, bind_eq_ok] at isApplied
  obtain ⟨_, -, _, -, _, -, released⟩ := isApplied
  unfold applyCheckpointReleases at released
  split at released
  · cases released
    rfl
  · simp only [bind_eq_ok, pure_eq_ok] at released
    obtain ⟨flags, -, rfl⟩ := released
    simp only [Segment.bare, setFlags_bare]

theorem sameSegments_applyBaselines {controlSegments : ExtTreeMap Nat ControlSegment}
    {applied : SegmentMap} (isApplied : applyBaselines controlSegments segments = .ok applied) :
    SameSegments segments applied :=
  sameSegments_of_tryFold (fun segmentId => applyBaseline controlSegments[segmentId]?)
    (fun _ _ _ => applyBaseline_bare) isApplied

theorem sameSegments_refreshSegments (isRefreshed : refreshSegments segments = .ok refreshed) :
    SameSegments segments refreshed := by
  refine sameSegments_of_tryFold (fun _ segment => segment.refreshUnreleasedRecords)
    (fun segmentId segment converted isConverted => ?_) isRefreshed
  simp only [Segment.refreshUnreleasedRecords, bind_eq_ok, pure_eq_ok] at isConverted
  obtain ⟨count, -, rfl⟩ := isConverted
  rfl

theorem FlaggedRecords.bare {named : Nat → Prop} {before after : List StoredRecord}
    (flagged : FlaggedRecords named before after) :
    after.map StoredRecord.bare = before.map StoredRecord.bare := by
  refine List.ext_getElem? fun ordinal => ?_
  rw [List.getElem?_map, List.getElem?_map]
  cases found : before[ordinal]? with
  | none =>
    have outside : after[ordinal]? = none := by
      rw [List.getElem?_eq_none_iff, flagged.length]
      exact List.getElem?_eq_none_iff.mp found
    rw [outside]
  | some stored =>
    obtain ⟨marked, isMarked, kept, -⟩ := flagged.record ordinal stored found
    rw [isMarked, kept]
    rfl

theorem Flagged.sameSegments (flagged : Flagged segments named final) :
    SameSegments segments final := by
  intro segmentId
  have shape := flagged segmentId
  cases found : segments[segmentId]? with
  | none =>
    rw [found] at shape
    rw [shape]
  | some segment =>
    rw [found] at shape
    obtain ⟨marked, isMarked, kept, records⟩ := shape
    rw [isMarked, kept]
    simp only [Option.map_some, Segment.bare, records.bare]

/-- A place before the releases is one after them, and its record may be marked. -/
theorem Flagged.marked (flagged : Flagged segments named final) {ordinal : Nat}
    {stored : StoredRecord} (placed : Placed segments segmentId ordinal stored) :
    ∃ marked, Placed final segmentId ordinal marked ∧
      marked = { stored with released := marked.released } ∧
      (marked.released = true ↔ stored.released = true ∨ named segmentId ordinal) := by
  obtain ⟨segment, found, isStored⟩ := placed
  have shape := flagged segmentId
  rw [found] at shape
  obtain ⟨holder, isHolder, -, records⟩ := shape
  obtain ⟨marked, isMarked, kept, released⟩ := records.record ordinal stored isStored
  exact ⟨marked, ⟨holder, isHolder, isMarked⟩, kept, released⟩

/-- A place after the releases is one before them, with the same identity. -/
theorem Flagged.placed (flagged : Flagged segments named final) {ordinal : Nat}
    {record : StoredRecord} (placed : Placed final segmentId ordinal record) :
    ∃ stored, Placed segments segmentId ordinal stored ∧ stored.streamId = record.streamId ∧
      stored.sequence = record.sequence := by
  obtain ⟨holder, isHolder, isRecord⟩ := placed
  have shape := flagged segmentId
  cases found : segments[segmentId]? with
  | none =>
    rw [found] at shape
    rw [shape] at isHolder
    cases isHolder
  | some segment =>
    rw [found] at shape
    obtain ⟨marked, isMarked, -, records⟩ := shape
    cases isHolder.symm.trans isMarked
    obtain ⟨inside, -⟩ := List.getElem?_eq_some_iff.mp isRecord
    rw [records.length] at inside
    obtain ⟨_, isFlagged, kept, -⟩ := records.record ordinal _ (List.getElem?_eq_getElem inside)
    cases isRecord.symm.trans isFlagged
    refine ⟨_, ⟨segment, found, List.getElem?_eq_getElem inside⟩, ?_, ?_⟩
    · rw [kept]
    · rw [kept]

/-! ### The rebuilt index -/

theorem applyDurableHighwaters_entry {final : StreamMap} {entries : List (StreamId × Nat)}
    (folded : tryFold applyDurableHighwater streams entries = .ok final) (streamId : StreamId) :
    (final.entry streamId).highwater = (streams.entry streamId).highwater ∧
      (final.entry streamId).pending = (streams.entry streamId).pending ∧
      (final.entry streamId).pendingPayloadBytes = (streams.entry streamId).pendingPayloadBytes := by
  refine tryFold_induction (fun total : StreamMap =>
    (total.entry streamId).highwater = (streams.entry streamId).highwater ∧
      (total.entry streamId).pending = (streams.entry streamId).pending ∧
      (total.entry streamId).pendingPayloadBytes = (streams.entry streamId).pendingPayloadBytes)
    ⟨rfl, rfl, rfl⟩ ?_ folded
  rintro total ⟨other, persisted⟩ next - kept stepped
  rw [(applyDurableHighwater_eq_ok stepped).2 streamId]
  split <;> exact kept

/-- `rebuildIndexes` up to its index: the replay of the records, and the segments in which the releases
of the log are marked. -/
def Replays (scanned : SegmentMap) (highwaters : Highwaters) (control : Control)
    (replay : Replay) (segments : SegmentMap) : Prop :=
  ∃ applied, applyBaselines control.liveSegments scanned = .ok applied ∧
    tryFold (replaySegment applied control.liveSegments control.removedSegments)
      ⟨checkpointStreams highwaters, ∅, ∅⟩ (allSegmentIds applied control.removedSegments) =
        .ok replay ∧
    tryFold (applyRelease replay.streams replay.locations) applied control.releases = .ok segments

/-- The steps of a rebuild. -/
theorem rebuildIndexes_eq_ok {scanned : SegmentMap} {highwaters : Highwaters} :
    rebuildIndexes scanned highwaters control = .ok (segments, streams) ↔
      ∃ replay indexed, Replays scanned highwaters control replay segments ∧
        tryFold indexSegment replay.streams segments.toList = .ok indexed ∧
        tryFold applyDurableHighwater indexed control.streamHighwaters.toList = .ok streams := by
  simp only [rebuildIndexes, bind_eq_ok, pure_eq_ok]
  constructor
  · rintro ⟨applied, isApplied, replay, isReplay, released, isReleased, indexed, isIndexed, final,
      isFinal, same⟩
    obtain ⟨rfl, rfl⟩ := Prod.mk.inj same
    exact ⟨replay, indexed, ⟨applied, isApplied, isReplay, isReleased⟩, isIndexed, isFinal⟩
  · rintro ⟨replay, indexed, ⟨applied, isApplied, isReplay, isReleased⟩, isIndexed, isFinal⟩
    exact ⟨applied, isApplied, replay, isReplay, segments, isReleased, indexed, isIndexed, streams,
      isFinal, rfl⟩

/-- **The rebuilt streams index every place of the segments.** -/
theorem indexes_rebuildIndexes {scanned : SegmentMap} {highwaters : Highwaters}
    (rebuilt : rebuildIndexes scanned highwaters control = .ok (segments, streams)) :
    SameSegments scanned segments ∧ Indexes segments streams fun _ _ => True := by
  obtain ⟨replay, indexed, ⟨applied, isApplied, isReplay, isReleased⟩, isIndexed, isFinal⟩ :=
    rebuildIndexes_eq_ok.mp rebuilt
  have replayed := replayed_all isReplay
  have flagged := flagged_all isReleased
  have distinct : ∀ segmentId ordinal record otherId otherOrdinal other,
      Placed segments segmentId ordinal record → Placed segments otherId otherOrdinal other →
      record.streamId = other.streamId → record.sequence = other.sequence →
        segmentId = otherId ∧ ordinal = otherOrdinal := by
    intro segmentId ordinal record otherId otherOrdinal other placed otherPlaced sameStream
      sameSequence
    obtain ⟨stored, isStored, storedStream, storedSequence⟩ := flagged.placed placed
    obtain ⟨otherStored, isOther, otherStream, otherSequence⟩ := flagged.placed otherPlaced
    have first := replayed.located _ _ _ trivial isStored
    have second := replayed.located _ _ _ trivial isOther
    rw [storedStream, storedSequence, sameStream, sameSequence] at first
    rw [otherStream, otherSequence] at second
    cases first.symm.trans second
    exact ⟨rfl, rfl⟩
  have all := indexedBy_all distinct replayed.pending isIndexed
  refine ⟨(sameSegments_applyBaselines isApplied).trans flagged.sameSegments, ?_⟩
  have indexes : Indexes segments indexed fun _ _ => True :=
    { unique := fun _ _ _ _ _ _ _ _ => distinct _ _ _ _ _ _
      below := fun segmentId ordinal record isDone placed => by
        rw [all.highwater]
        exact all.below segmentId ordinal record isDone placed
      place := fun streamId sequence pointer found =>
        ⟨trivial, all.place streamId sequence pointer found⟩
      pending := all.pending }
  exact indexes.onStreams (fun streamId => (applyDurableHighwaters_entry isFinal streamId).1)
    fun streamId => (applyDurableHighwaters_entry isFinal streamId).2.1

/-! ### The scanned segments -/

/-- What the scan of some segments has found: the candidates are the segments without a footer. -/
structure ScannedBy (done : List Nat) (found : ScannedSegments) : Prop where
  keys : ∀ segmentId ∈ found.segments, segmentId ∈ done
  candidates : ∀ segmentId, segmentId ∈ found.activeCandidates ↔
    ∃ segment, found.segments[segmentId]? = some segment ∧ segment.footer = none

/-- A classified segment is recorded, as a candidate if it has no footer. -/
theorem classifySegment_eq_ok {segment : Segment} {found : ScannedSegments}
    (classified : classifySegment expected segment found = .ok next) :
    next.segments = found.segments.insert segment.id segment ∧
      next.activeCandidates = found.activeCandidates ++
        if segment.footer = none then [segment.id] else [] := by
  unfold classifySegment at classified
  split at classified
  · rename_i footer _ isFooter
    simp only [bind_eq_ok, pure_eq_ok] at classified
    obtain ⟨_, -, rfl⟩ := classified
    simp [isFooter]
  · cases classified
  · rename_i footer isFooter _
    cases classified
    simp [isFooter]
  · rename_i noFooter _
    cases classified
    simp [noFooter]

theorem ScannedBy.classify {found : ScannedSegments} (before : ScannedBy done found)
    {segment : Segment} (fresh : segment.id ∉ done)
    (classified : classifySegment expected segment found = .ok next) :
    ScannedBy (done ++ [segment.id]) next := by
  obtain ⟨segments, candidates⟩ := classifySegment_eq_ok classified
  constructor
  · intro segmentId member
    rw [segments, Maps.mem_insert] at member
    rcases member with same | earlier
    · simp [same]
    · exact List.mem_append_left _ (before.keys segmentId earlier)
  · intro segmentId
    rw [candidates, segments, List.mem_append, before.candidates, ExtTreeMap.getElem?_insert]
    by_cases same : segment.id = segmentId
    · subst same
      have absent : found.segments[segment.id]? = none :=
        ExtTreeMap.getElem?_eq_none fun member => fresh (before.keys _ member)
      by_cases noFooter : segment.footer = none
      · simp [noFooter]
      · simp [noFooter, absent]
    · have other : ¬ segmentId = segment.id := fun equal => same equal.symm
      by_cases noFooter : segment.footer = none
      · simp [noFooter, same, other]
      · simp [noFooter, same]

/-- The active segment a validation returns: the only candidate, and the greatest segment. -/
theorem validateScannedSegments_eq_ok {found : ScannedSegments}
    (validated : validateScannedSegments control found = .ok active) :
    (∀ segmentId, active = some segmentId ↔ segmentId ∈ found.activeCandidates) ∧
      ∀ segmentId, active = some segmentId → ∀ other ∈ found.segments, other ≤ segmentId := by
  simp only [validateScannedSegments, bind_eq_ok, ensure_eq_ok, decide_eq_true_eq,
    pure_eq_ok, Bool.or_eq_true] at validated
  obtain ⟨_, -, _, atMostOne, _, isGreatest, rfl⟩ := validated
  constructor
  · intro segmentId
    rcases candidates : found.activeCandidates with _ | ⟨only, _ | ⟨second, rest⟩⟩
    · simp
    · simp [eq_comm]
    · rw [candidates] at atMostOne
      simp at atMostOne
  · intro segmentId isActive
    rw [isActive] at isGreatest
    rcases isGreatest with none | greatest
    · cases none
    · exact (Maps.greatest_eq_some.mp greatest).2

/-! ### The counters -/

theorem deriveNextSegmentId_eq_ok {checkpointNext next : Nat} {identities : List Nat}
    (derived : deriveNextSegmentId checkpointNext identities = .ok next) :
    (∀ segmentId ∈ identities, segmentId < next) ∧ checkpointNext ≤ next ∧
      (checkpointNext ≤ wordMax → next ≤ wordMax) := by
  unfold deriveNextSegmentId at derived
  split at derived
  · rename_i greatest isGreatest
    simp only [bind_eq_ok, orError_eq_ok, checkedAdd_eq_some, pure_eq_ok]
      at derived
    obtain ⟨_, ⟨rfl, bound⟩, rfl⟩ := derived
    refine ⟨fun segmentId member => ?_, Nat.le_max_left _ _, fun small => Nat.max_le.mpr ⟨small, bound⟩⟩
    have below := (List.max?_eq_some_iff.mp isGreatest).2 segmentId member
    exact Nat.lt_of_lt_of_le (Nat.lt_succ_of_le below) (Nat.le_max_right _ _)
  · rename_i none
    cases derived
    rw [List.max?_eq_none_iff] at none
    subst none
    exact ⟨fun _ member => absurd member List.not_mem_nil, Nat.le_max_left _ _,
      fun small => Nat.max_le.mpr ⟨small, Nat.zero_le _⟩⟩

theorem foldl_addReclaimable (segments : List Segment) (total : Nat × Nat)
    (bounded : total.1 + segments.countP Segment.isReclaimable ≤ wordMax) :
    (segments.foldl addReclaimable total).1 =
      total.1 + segments.countP Segment.isReclaimable := by
  induction segments generalizing total with
  | nil => rfl
  | cons segment rest ih =>
    rw [List.countP_cons] at bounded ⊢
    rw [List.foldl_cons, addReclaimable]
    cases reclaimable : segment.isReclaimable with
    | false =>
      rw [reclaimable, if_neg nofun, Nat.add_zero] at bounded
      rw [if_neg nofun, if_neg nofun, ih total bounded, Nat.add_zero]
    | true =>
      rw [reclaimable, if_pos rfl] at bounded
      have room : saturatingAdd total.1 1 = total.1 + 1 := min_eq_left (by omega)
      rw [if_pos rfl, if_pos rfl, ih _ (by rw [room]; omega), room]
      omega

/-- The reclaimable segments of a map, counted in the order of their identities. -/
theorem countP_values {bound : Nat} (below : ∀ segmentId ∈ segments, segmentId < bound) :
    (Maps.values segments).countP Segment.isReclaimable = reclaimableCount segments bound := by
  have keys : segments.keys = (List.range bound).filter fun segmentId => segmentId ∈ segments := by
    refine (Maps.keys_sorted segments).eq_of_mem_iff
      (List.pairwise_lt_range.filter _) fun segmentId => ?_
    rw [ExtTreeMap.mem_keys, List.mem_filter, List.mem_range, decide_eq_true_eq]
    exact ⟨fun member => ⟨below segmentId member, member⟩, fun both => both.2⟩
  have entries : (Maps.values segments).countP Segment.isReclaimable =
      segments.keys.countP fun segmentId => segments[segmentId]?.any Segment.isReclaimable := by
    rw [Maps.values, ← ExtTreeMap.map_fst_toList_eq_keys, List.countP_map, List.countP_map]
    refine List.countP_congr fun entry member => ?_
    have found : segments[entry.1]? = some entry.2 :=
      ExtTreeMap.mem_toList_iff_getElem?_eq_some.mp member
    simp [found]
  rw [entries, keys, List.countP_filter, reclaimableCount]
  refine List.countP_congr fun segmentId _ => ?_
  simp only [Bool.and_eq_true, decide_eq_true_eq, and_iff_left_iff_imp]
  intro reclaimable
  rw [ExtTreeMap.mem_iff_isSome_getElem?]
  cases found : segments[segmentId]? with
  | none => simp [found] at reclaimable
  | some segment => rfl

/-- What refreshing a segment leaves of it. -/
theorem refreshSegments_found (isRefreshed : refreshSegments segments = .ok refreshed)
    {segment : Segment} (found : refreshed[segmentId]? = some segment) :
    ∃ original, segments[segmentId]? = some original ∧
      segment = { original with unreleasedRecords := original.unreleasedCount } := by
  have entry := @Maps.tryFold_insert_toList _ _ _ _ _ _
    (fun (_ : Nat) (segment : Segment) => segment.refreshUnreleasedRecords) segments refreshed
    isRefreshed segmentId
  cases isOriginal : segments[segmentId]? with
  | none =>
    rw [isOriginal] at entry
    rw [entry] at found
    cases found
  | some original =>
    rw [isOriginal] at entry
    obtain ⟨converted, isConverted, isFinal⟩ := entry
    cases found.symm.trans isFinal
    simp only [Segment.refreshUnreleasedRecords, bind_eq_ok, orError_eq_ok,
      toWord_eq_some, pure_eq_ok] at isConverted
    obtain ⟨_, ⟨rfl, -⟩, rfl⟩ := isConverted
    exact ⟨original, rfl, rfl⟩

/-- Refreshing the segments shows the same places. -/
theorem Indexes.refreshSegments (indexes : Indexes segments streams fun _ _ => True)
    (isRefreshed : Camus.refreshSegments segments = .ok refreshed) :
    Indexes refreshed streams fun _ _ => True := by
  refine indexes.onSegments ?_ ?_
  · rintro segmentId ordinal record - ⟨segment, found, isRecord⟩
    obtain ⟨original, isOriginal, rfl⟩ := refreshSegments_found isRefreshed found
    exact ⟨trivial, original, isOriginal, isRecord⟩
  · rintro segmentId ordinal record - ⟨original, isOriginal, isRecord⟩ -
    have member : segmentId ∈ refreshed := by
      rw [(sameSegments_refreshSegments isRefreshed).mem_iff,
        ExtTreeMap.mem_iff_isSome_getElem?, isOriginal]
      rfl
    obtain ⟨segment, found⟩ := Maps.mem_iff_found.mp member
    obtain ⟨other, isOther, rfl⟩ := refreshSegments_found isRefreshed found
    cases isOther.symm.trans isOriginal
    exact ⟨trivial, _, found, isRecord⟩

/-- **What a state is assembled from**: the rebuilt index, the segments with their counts refreshed,
and the aggregates over both. -/
structure Assembles (recovery : ControlRecovery) (control : Control) (scanned : ScannedSegments)
    (segments : SegmentMap) (storage : Storage) : Prop where
  rebuilt : rebuildIndexes scanned.segments recovery.checkpointStreamHighwaters control =
    .ok (segments, storage.streams)
  next : deriveNextSegmentId recovery.checkpointNextSegmentId
    (segments.keys ++ control.removedSegments.keys) = .ok storage.nextSegmentId
  refreshed : refreshSegments segments = .ok storage.segments
  durable : storage.durableStreams =
    (Maps.values storage.streams).countP fun stream => stream.highwater.isSome
  records : tryFold addPendingCount 0 (Maps.values storage.streams) = .ok storage.pendingRecords
  bytes : tryFold addPendingBytes 0 (Maps.values storage.streams) = .ok storage.pendingPayloadBytes
  reclaimable : (Maps.values storage.segments).foldl addReclaimable (0, 0) =
    (storage.reclaimableSegments, storage.reclaimableBytes)

theorem assembleStorage_eq_ok {manifest : Manifest} {scanned : ScannedSegments}
    {stats : RecoveryStats} (assembled : assembleStorage config rootId recovery manifest control
      scanned active stats = .ok storage) :
    storage.manifest = manifest ∧ storage.activeSegment = active ∧
      ∃ segments, Assembles recovery control scanned segments storage := by
  simp only [assembleStorage, refreshRecoveredAggregates, bind_eq_ok, orError_eq_ok, toWord_eq_some,
    pure_eq_ok] at assembled
  obtain ⟨⟨segments, streams⟩, rebuilt, next, isNext, refreshed, isRefreshed, _, ⟨rfl, -⟩, _, records, _,
    bytes, rfl⟩ := assembled
  exact ⟨rfl, rfl, segments, rebuilt, isNext, isRefreshed, rfl, records, bytes, rfl⟩

namespace Assembles

variable {scanned : ScannedSegments}

theorem sameSegments (assembles : Assembles recovery control scanned segments storage) :
    SameSegments scanned.segments storage.segments :=
  (indexes_rebuildIndexes assembles.rebuilt).1.trans (sameSegments_refreshSegments assembles.refreshed)

theorem below (assembles : Assembles recovery control scanned segments storage) :
    ∀ segmentId ∈ storage.segments, segmentId < storage.nextSegmentId := by
  intro segmentId member
  refine (deriveNextSegmentId_eq_ok assembles.next).1 segmentId
    (List.mem_append_left _ (ExtTreeMap.mem_keys.mpr ?_))
  exact ((sameSegments_refreshSegments assembles.refreshed).mem_iff segmentId).mp member

end Assembles

/-- **An assembled state is sound.** -/
theorem sound_assembleStorage {manifest : Manifest} {validated : Control}
    {scanned : ScannedSegments} {stats : RecoveryStats}
    (small : recovery.checkpointNextSegmentId ≤ wordMax) (isScanned : ScannedBy done scanned)
    (isActive : validateScannedSegments validated scanned = .ok active)
    (assembled : assembleStorage config rootId recovery manifest control scanned active stats =
      .ok storage) : storage.indexView.Sound := by
  obtain ⟨-, rfl, segments, assembles⟩ := assembleStorage_eq_ok assembled
  obtain ⟨-, -, last⟩ := deriveNextSegmentId_eq_ok assembles.next
  obtain ⟨candidates, greatest⟩ := validateScannedSegments_eq_ok isActive
  have sameAll := assembles.sameSegments
  have below := assembles.below
  have isOpen : ∀ segmentId, storage.activeSegment = some segmentId ↔
      ∃ segment, storage.segments[segmentId]? = some segment ∧ segment.footer = none := by
    intro segmentId
    rw [candidates, isScanned.candidates]
    constructor
    · rintro ⟨original, isOriginal, noFooter⟩
      have mapped := sameAll segmentId
      rw [isOriginal] at mapped
      obtain ⟨segment, found, equal⟩ := Option.map_eq_some_iff.mp mapped
      exact ⟨segment, found, (congrArg Segment.footer equal).trans noFooter⟩
    · rintro ⟨segment, found, noFooter⟩
      obtain ⟨original, isOriginal, equal⟩ := sameAll.found found
      exact ⟨original, isOriginal, (congrArg Segment.footer equal).symm.trans noFooter⟩
  exact
    { indexes := (indexes_rebuildIndexes assembles.rebuilt).2.refreshSegments assembles.refreshed
      counted := fun segmentId segment found => by
        obtain ⟨original, -, rfl⟩ := refreshSegments_found assembles.refreshed found
        rfl
      isOpen := fun segmentId => (isOpen segmentId).mp
      isActive := fun segmentId segment found noFooter =>
        (isOpen segmentId).mpr ⟨segment, found, noFooter⟩
      greatest := fun segmentId isActive other member =>
        greatest segmentId isActive other ((sameAll.mem_iff other).mp member)
      identities := below
      last := last small
      reclaimable := by
        have counted := countP_values below
        have bound := reclaimableCount_le storage.segments storage.nextSegmentId
        have limit := last small
        have total := congrArg Prod.fst assembles.reclaimable
        rw [foldl_addReclaimable _ _ (by rw [counted]; omega), Nat.zero_add, counted] at total
        exact total.symm }

section

variable [Hasher] {fs left : Fs}

theorem returns_scan {repairs : Bool} {count : Option Nat} {segment : Segment}
    (returned : Returns (Segment.scan rootId segmentId repairs count) fs segment left) :
    segment.id = segmentId := by
  obtain ⟨file, -, returned⟩ := (Returns.bind_read returned).bind_ofOption
  obtain ⟨-, returned⟩ := returned.bind_observe.bind_observe.bind_require
  obtain ⟨header, -, returned⟩ := returned.bind_observe.bind_ofExcept
  obtain ⟨scanned, -, returned⟩ := returned.bind_ofExcept
  obtain ⟨_, repaired, -, returned⟩ := returned.bind
  obtain ⟨uniqueStreams, -, returned⟩ := returned.bind_ofExcept
  obtain ⟨unreleased, -, returned⟩ := returned.bind_observe.bind_ofOption
  obtain ⟨rfl, -⟩ := returned.pure
  rfl

theorem scannedBy_scanSegments {rest : List Nat} {found final : ScannedSegments}
    (before : ScannedBy done found) (distinct : (done ++ rest).Nodup)
    (returned : Returns (scanSegments rootId control found rest) fs final left) :
    ScannedBy (done ++ rest) final := by
  induction rest generalizing done found fs with
  | nil =>
    obtain ⟨rfl, -⟩ := Returns.result returned
    rw [List.append_nil]
    exact before
  | cons segmentId rest ih =>
    obtain ⟨next, middle, scans, scansRest⟩ := returned.bind
    obtain ⟨segment, scannedFs, isScanned, classifies⟩ := scans.bind
    obtain ⟨classified, -⟩ := Returns.ofExcept classifies
    obtain rfl := returns_scan isScanned
    have fresh : segment.id ∉ done := fun member =>
      (List.nodup_append.mp distinct).2.2 segment.id member segment.id List.mem_cons_self rfl
    rw [← List.singleton_append, ← List.append_assoc] at distinct ⊢
    exact ih (before.classify fresh classified) distinct scansRest

theorem returns_recoverSegments {temporaries : Nat}
    (returned : Returns (recoverSegments config rootId recovery temporaries listing) fs storage left)
    :
    ∃ scanned done active manifest control stats, ScannedBy done scanned ∧
      validateScannedSegments recovery.control scanned = .ok active ∧
      assembleStorage config rootId recovery manifest control scanned active stats = .ok storage := by
  obtain ⟨found, enumerated, -, returned⟩ := returned.bind
  obtain ⟨scanned, afterScan, scans, returned⟩ := returned.bind
  obtain ⟨active, isActive, returned⟩ := returned.bind_ofExcept
  obtain ⟨⟨manifest, control⟩, afterSeals, -, returned⟩ := returned.bind
  obtain ⟨assembled, -⟩ := Returns.ofExcept returned
  have start : ScannedBy [] ⟨∅, [], []⟩ := ⟨fun _ member => by simp at member, fun _ => by simp⟩
  have distinct : ([] ++ found.segments.toList).Nodup :=
    ExtTreeSet.ordered_toList.imp fun ordered => (Nat.compare_eq_lt.mp ordered).ne
  exact ⟨scanned, _, active, manifest, control, _, scannedBy_scanSegments start distinct scans,
    isActive, assembled⟩

theorem Accepts.nextSegmentId_le {file log : Nat} {checkpoint : Checkpoint}
    {header : ManifestLogHeader} {scan : LogScan}
    (accepts : Accepts rootId fs file log checkpoint header scan) :
    checkpoint.nextSegmentId ≤ wordMax := by
  have decoded := accepts.decoded
  simp only [bind_eq_ok, pure_eq_ok, Checkpoint.decode, Checkpoint.decodeBody] at decoded
  obtain ⟨_, -, _, -, _, -, _, -, _, -, _, -, _, -, _, -, _, -, _, -, _, -, _, -, _, -, _, -,
    _, -, _, -, rfl⟩ := decoded
  exact readWord_le _ _

/-- **An open root is sound**, whatever the disk held. -/
theorem sound_open {entropy : RootId}
    (returned : Returns (Storage.open config entropy listing) fs storage left) :
    storage.indexView.Sound := by
  obtain ⟨_, -, returned⟩ := returned.bind_ofExcept
  obtain ⟨_, first, -, returned⟩ := returned.bind
  obtain ⟨_, second, -, returned⟩ := returned.bind
  obtain ⟨_, -, returned⟩ := returned.bind_ofExcept
  obtain ⟨_, third, -, returned⟩ := returned.bind
  obtain ⟨_, fourth, -, returned⟩ := returned.bind
  obtain ⟨_, fifth, -, returned⟩ := returned.bind
  obtain ⟨recovery, sixth, recovers, returned⟩ := returned.bind
  obtain ⟨recovered, seventh, isRecovered, returned⟩ := returned.bind
  obtain ⟨actual, eighth, -, returned⟩ := returned.bind
  obtain ⟨_, -, returned⟩ := returned.bind_ofExcept
  obtain ⟨rfl, -⟩ := returned.pure
  obtain ⟨file, log, checkpoint, header, scan, accepts, rfl, -⟩ := returns_recover recovers
  obtain ⟨scanned, done, active, manifest, control, stats, isScanned, isActive, assembled⟩ :=
    returns_recoverSegments isRecovered
  have sound := sound_assembleStorage accepts.nextSegmentId_le isScanned isActive assembled
  exact sound

/-! ### The states of an open root -/

/-- A request the writer executes. -/
inductive Operation where
  | append (units : List AppendUnit) (expiry creation : Clock)
  | release (units : List ReleaseUnit)
  | reclaim (kind : ReclaimKind)
  | sealExpired (clock : Clock)
  | compact

/-- The operation returned without an error. -/
def Operation.Returns : Operation → World → World → Prop
  | append units expiry creation, world, final =>
    ∃ ids, FaultIo.Returns (appendGroup units expiry creation) world ids final
  | release units, world, final => FaultIo.Returns (releaseGroup units) world () final
  | reclaim kind, world, final => ∃ report, FaultIo.Returns (Camus.reclaim kind) world report final
  | sealExpired clock, world, final => ∃ sealed, FaultIo.Returns (Camus.sealExpired clock) world sealed final
  | compact, world, final => FaultIo.Returns compactManifest world () final

/-- **The states of an open root**: an open returned one on some disk, and operations on it have
returned without an error. -/
inductive Reached : World → Prop
  | opened {config : Config} {entropy : RootId} {listing : Listing} {storage : Storage} {fs left : Fs} :
    Returns (Storage.open config entropy listing) fs storage left → Reached ⟨storage, left⟩
  | operated {operation : Operation} {world final : World} :
    Reached world → operation.Returns world final → Reached final

/-- **Every operation is a chain of changes.** -/
theorem moves_operation {operation : Operation} {final : World} (sound : world.storage.indexView.Sound)
    (returned : operation.Returns world final) : Chain world final := by
  cases operation with
  | append units expiry creation =>
    obtain ⟨ids, returned⟩ := returned
    exact chain_appendGroup returned
  | release units => exact chain_releaseGroup returned
  | reclaim kind =>
    obtain ⟨report, returned⟩ := returned
    exact chain_reclaim sound returned
  | sealExpired clock =>
    obtain ⟨sealed, returned⟩ := returned
    exact chain_sealExpired returned
  | compact => exact (Moves.compacts returned).chain

/-- **Every state of an open root is sound.** -/
theorem sound_reached (reached : Reached world) : world.storage.indexView.Sound := by
  induction reached with
  | opened returned => exact sound_open returned
  | operated _ returned sound => exact (moves_operation sound returned).sound sound

/-- Some operations returned without an error, one after the other. -/
inductive Runs : World → List Operation → World → Prop
  | done (world : World) : Runs world [] world
  | operated {world middle final : World} {operation : Operation} {operations : List Operation} :
    operation.Returns world middle → Runs middle operations final →
      Runs world (operation :: operations) final

theorem Runs.reached {operations : List Operation} {start final : World}
    (runs : Runs start operations final) (reached : Reached start) : Reached final := by
  induction runs with
  | done => exact reached
  | operated returned _ ih => exact ih (.operated reached returned)

theorem Runs.returns {operation : Operation} {start final : World}
    (runs : Runs start [operation] final) : operation.Returns start final := by
  cases runs with
  | operated returned rest =>
    cases rest
    exact returned

end

/-! ### Runs of a small root -/

theorem exists_of_any {α : Type} {value : Option α} {test : α → Bool}
    (holds : value.any test = true) : ∃ found, value = some found ∧ test found = true := by
  cases value with
  | none => cases holds
  | some found => exact ⟨found, rfl, holds⟩

namespace Sample

variable {config : Config} {operations : List Operation} {world final : World}

/-- One empty record. -/
def unit (streamId : StreamId) : AppendUnit := ⟨streamId, [⟨[], []⟩]⟩

def append (units : List AppendUnit) : Operation := .append units (.millis 5) (.millis 5)

/-- The release of one record. -/
def release (streamId : StreamId) (sequence : Nat) : Operation :=
  .release [⟨streamId, [⟨.sample, streamId, sequence⟩]⟩]

/-- The root after an open without faults. -/
def opens (config : Config) (fs : Fs) : Option World :=
  ((@Storage.open Hasher.fnv config .sample .sorted).completion fs).map fun (storage, left) =>
    ⟨storage, left⟩

theorem returns_of_opens {fs : Fs} (found : opens config fs = some world) :
    Returns (@Storage.open Hasher.fnv config .sample .sorted) fs world.storage world.fs := by
  obtain ⟨⟨storage, left⟩, completed, rfl⟩ := Option.map_eq_some_iff.mp found
  exact returns_of_completion completed

/-- The root after an operation without faults. -/
def operate (world : World) : Operation → Option World
  | .append units expiry creation =>
    ((@appendGroup Hasher.fnv units expiry creation).completion world).map Prod.snd
  | .release units => ((@releaseGroup Hasher.fnv units).completion world).map Prod.snd
  | .reclaim kind => ((@reclaim Hasher.fnv kind).completion world).map Prod.snd
  | .sealExpired clock => ((@sealExpired Hasher.fnv clock).completion world).map Prod.snd
  | .compact => ((@compactManifest Hasher.fnv).completion world).map Prod.snd

theorem returns_of_operate {operation : Operation} (found : operate world operation = some final) :
    @Operation.Returns Hasher.fnv operation world final := by
  cases operation with
  | append units expiry creation =>
    obtain ⟨⟨ids, _⟩, completed, rfl⟩ := Option.map_eq_some_iff.mp found
    exact ⟨ids, returns_of_completion completed⟩
  | release units =>
    obtain ⟨_, completed, rfl⟩ := Option.map_eq_some_iff.mp found
    exact returns_of_completion completed
  | reclaim kind =>
    obtain ⟨⟨report, _⟩, completed, rfl⟩ := Option.map_eq_some_iff.mp found
    exact ⟨report, returns_of_completion completed⟩
  | sealExpired clock =>
    obtain ⟨⟨sealed, _⟩, completed, rfl⟩ := Option.map_eq_some_iff.mp found
    exact ⟨sealed, returns_of_completion completed⟩
  | compact =>
    obtain ⟨_, completed, rfl⟩ := Option.map_eq_some_iff.mp found
    exact returns_of_completion completed

theorem runs_of_operate (found : operations.foldlM operate world = some final) :
    @Runs Hasher.fnv world operations final := by
  induction operations generalizing world with
  | nil =>
    cases found
    exact @Runs.done Hasher.fnv _
  | cons operation rest ih =>
    obtain ⟨next, operated, later⟩ := Option.bind_eq_some_iff.mp found
    exact @Runs.operated Hasher.fnv _ _ _ _ _ (returns_of_operate operated) (ih later)

/-- A root that is opened for the first time, after some operations. -/
def run (config : Config) (operations : List Operation) : Option World :=
  (opens config .fresh).bind (operations.foldlM operate)

theorem reached_of_run (found : run config operations = some world) : @Reached Hasher.fnv world := by
  obtain ⟨start, isOpened, operated⟩ := Option.bind_eq_some_iff.mp found
  exact @Runs.reached Hasher.fnv _ _ _ (runs_of_operate operated)
    (@Reached.opened Hasher.fnv _ _ _ _ _ _ (returns_of_opens isOpened))

/-- Such a root, and the same root after some more. -/
def extend (config : Config) (operations more : List Operation) : Option (World × World) := do
  let world ← run config operations
  let final ← more.foldlM operate world
  return (world, final)

theorem runs_of_extend {more : List Operation}
    (found : extend config operations more = some (world, final)) :
    @Reached Hasher.fnv world ∧ @Runs Hasher.fnv world more final := by
  simp only [extend, Option.bind_eq_bind, Option.bind_eq_some_iff, Option.pure_def,
    Option.some.injEq, Prod.mk.injEq] at found
  obtain ⟨_, isRun, _, operated, rfl, rfl⟩ := found
  exact ⟨reached_of_run isRun, runs_of_operate operated⟩

end Sample

end Camus
